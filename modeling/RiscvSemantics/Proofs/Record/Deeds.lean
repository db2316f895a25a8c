import RiscvSemantics.Proofs.Record.Transparent
import RiscvSemantics.Proofs.Run.Polled

namespace RiscvSemantics

variable {σ τ ε ω : Type}

open Interpretation

/-- What a run does to a machine: an access, or asking it for its pending cause. -/
inductive Deed (ε : Type) where
  | access (entry : Access ε)
  | poll

/-- The entry that a deed leaves in a record, if it leaves one. -/
def Deed.entry? : Deed ε → Option (Access ε)
  | .access entry => some entry
  | .poll => none

/-- The entries that deeds leave in a record. -/
def entriesOf (deeds : List (Deed ε)) : List (Access ε) :=
  deeds.filterMap Deed.entry?

@[simp] theorem entriesOf_nil : entriesOf ([] : List (Deed ε)) = [] := rfl

@[simp] theorem entriesOf_poll (deeds : List (Deed ε)) : entriesOf (.poll :: deeds) = entriesOf deeds := rfl

@[simp] theorem entriesOf_access (entry : Access ε) (deeds : List (Deed ε)) :
    entriesOf (.access entry :: deeds) = entry :: entriesOf deeds := rfl

@[simp] theorem entriesOf_append (deeds more : List (Deed ε)) :
    entriesOf (deeds ++ more) = entriesOf deeds ++ entriesOf more :=
  List.filterMap_append

@[simp] theorem entriesOf_map (entries : List (Access ε)) : entriesOf (entries.map .access) = entries := by
  induction entries with
  | nil => rfl
  | cons entry rest ih => rw [List.map_cons, entriesOf_access, ih]

section Replay

variable [PolledMachine σ ε]

/-- Does a deed once more. -/
def Deed.replay : Deed ε → σ → Option σ
  | .access entry, s => entry.replay s
  | .poll, s => some (PolledMachine.polled s)

/-- Replays deeds one after the other, from the first on. -/
def replayDeeds (deeds : List (Deed ε)) (s : σ) : Option σ :=
  deeds.foldlM (fun s deed => deed.replay s) s

theorem replayDeeds_poll (deeds : List (Deed ε)) (s : σ) :
    replayDeeds (.poll :: deeds) s = replayDeeds deeds (PolledMachine.polled s) := rfl

theorem replayDeeds_append (deeds more : List (Deed ε)) (s : σ) :
    replayDeeds (deeds ++ more) s = (replayDeeds deeds s).bind (replayDeeds more) := by
  rw [replayDeeds, List.foldlM_append]
  rfl

theorem replayDeeds_map (entries : List (Access ε)) (s : σ) :
    replayDeeds (entries.map .access) s = replayAll entries s := by
  rw [replayDeeds, List.foldlM_map, replayAll]
  rfl

/-- What a run with some budget does to a machine, in order: before every step, and where it halts,
    it asks for the pending cause, and each step makes its accesses. -/
def Catalog.deeds (catalog : Catalog ω ε) : (budget : Nat) → σ → List (Deed ε)
  | 0, _ => []
  | budget + 1, s =>
    .poll ::
      match Machine.pending s with
      | some _ => []
      | none =>
        let asked := PolledMachine.polled s
        ((catalog.stepDialogue (Machine.xlen σ) Machine.xlen_le).calls asked).map .access ++
          match step catalog asked with
          | (.ok (), t) => deeds catalog budget t
          | (.error _, _) => []

theorem step_recorded (catalog : Catalog ω ε) (s : σ) (record : Array (Access ε)) :
    (step catalog : Interpretation (Recorded σ ε) RunError Unit) ⟨s, record⟩ =
      ((step catalog s).1, ⟨(step catalog s).2,
        record ++ ((catalog.stepDialogue (Machine.xlen σ) Machine.xlen_le).calls s).toArray⟩) := by
  rw [step_eq_run, step_eq_run]
  exact Dialogue.run_recorded _ s record

/-- A run on a machine with a record goes as one on the machine, and the record gains the entries of
    what it does. -/
theorem runPolled_recorded (catalog : Catalog ω ε) (budget : Nat) (s : σ) (record : Array (Access ε)) :
    (runPolled catalog budget : Interpretation (Recorded σ ε) RunError (Option ε)) ⟨s, record⟩ =
      ((runPolled catalog budget s).1,
        ⟨(runPolled catalog budget s).2, record ++ (entriesOf (catalog.deeds budget s)).toArray⟩) := by
  induction budget generalizing s record with
  | zero => simp [runPolled_zero, Catalog.deeds]
  | succ budget ih =>
    have hpending : Machine.pending (⟨s, record⟩ : Recorded σ ε) = Machine.pending s := rfl
    have hpolled : PolledMachine.polled (⟨s, record⟩ : Recorded σ ε) = ⟨PolledMachine.polled s, record⟩ := rfl
    have hrecorded := step_recorded catalog (PolledMachine.polled s) record
    rw [runPolled_succ, runPolled_succ, hpending, hpolled, Catalog.deeds]
    cases Machine.pending s with
    | some cause => simp
    | none =>
      cases hstep : step catalog (PolledMachine.polled s) with
      | mk answer t =>
        rw [hstep] at hrecorded
        cases answer with
        | ok u =>
          simp only [bind_of_ok hstep, bind_of_ok hrecorded, ih, hstep]
          simp
        | error stop =>
          simp only [bind_of_error hstep, bind_of_error hrecorded, hstep]
          simp

/-- What a run does that does not end in a fault can be done once more: every read gives the same
    value again, and the machine comes to the same state. -/
theorem replayDeeds_deeds (catalog : Catalog ω ε) (budget : Nat) (s : σ)
    (hreturns : ∀ fault, (runPolled catalog budget s).1 ≠ .error (.fault fault)) :
    replayDeeds (catalog.deeds budget s) s = some (runPolled catalog budget s).2 := by
  induction budget generalizing s with
  | zero => rfl
  | succ budget ih =>
    rw [runPolled_succ] at hreturns ⊢
    rw [Catalog.deeds, replayDeeds_poll]
    cases hpending : Machine.pending s with
    | some cause => rfl
    | none =>
      rw [hpending] at hreturns
      have hreplay := Dialogue.replayAll_calls (catalog.stepDialogue (Machine.xlen σ) Machine.xlen_le)
        (PolledMachine.polled s)
      rw [← step_eq_run] at hreplay
      simp only [replayDeeds_append, replayDeeds_map]
      cases hstep : step catalog (PolledMachine.polled s) with
      | mk answer t =>
        rw [hstep] at hreplay
        cases answer with
        | ok u =>
          simp only [bind_of_ok hstep] at hreturns ⊢
          rw [hreplay nofun]
          exact ih t hreturns
        | error stop =>
          simp only [bind_of_error hstep] at hreturns ⊢
          rw [hreplay fun fault hfault => hreturns fault (congrArg Except.error (Except.error.inj hfault))]
          rfl

end Replay

section View

/-- A view of a machine that stays the same when the machine is asked for its pending cause, and that
    tells what every access answers and what it does to the view. -/
structure PolledMachine.Indifferent [PolledMachine σ ε] (view : σ → τ) : Prop where
  polled : ∀ s : σ, view (polled s) = view s
  ask : ∀ {s t : σ} (q : Query), view t = view s →
    ((q.ask : Action σ Bits) t).1 = ((q.ask : Action σ Bits) s).1 ∧
      view ((q.ask : Action σ Bits) t).2 = view ((q.ask : Action σ Bits) s).2
  make : ∀ {s t : σ} (c : Change ε), view t = view s →
    ((c.make : Action σ Unit) t).1 = ((c.make : Action σ Unit) s).1 ∧
      view ((c.make : Action σ Unit) t).2 = view ((c.make : Action σ Unit) s).2

variable {view : σ → τ} {s s' t : σ}

theorem exists_reread {action : Action σ Bits} {value : Bits}
    (hlike : (action t).1 = (action s).1 ∧ view (action t).2 = view (action s).2)
    (hreread : reread value action s = some s') : ∃ t', reread value action t = some t' ∧ view t' = view s' := by
  obtain ⟨hanswer, hview⟩ := hlike
  rw [reread_eq_some_iff.mp hreread] at hanswer hview
  exact ⟨(action t).2, reread_eq_some_iff.mpr (Prod.ext hanswer rfl), hview⟩

theorem exists_redo {action : Action σ Unit}
    (hlike : (action t).1 = (action s).1 ∧ view (action t).2 = view (action s).2)
    (hredo : redo action s = some s') : ∃ t', redo action t = some t' ∧ view t' = view s' := by
  obtain ⟨hanswer, hview⟩ := hlike
  rw [redo_eq_some_iff.mp hredo] at hanswer hview
  exact ⟨(action t).2, redo_eq_some_iff.mpr (Prod.ext hanswer rfl), hview⟩

namespace PolledMachine.Indifferent

variable [PolledMachine σ ε] (hview : Indifferent view)

include hview

theorem exists_replay (entry : Access ε) (hst : view t = view s) (hreplay : entry.replay s = some s') :
    ∃ t', entry.replay t = some t' ∧ view t' = view s' := by
  cases entry with
  | getPc value => exact exists_reread (hview.ask .pc hst) hreplay
  | getRegister id value => exact exists_reread (hview.ask (.register id) hst) hreplay
  | getMemory address value => exact exists_reread (hview.ask (.memory address) hst) hreplay
  | setPc value => exact exists_redo (hview.make (.pc value) hst) hreplay
  | setRegister id value => exact exists_redo (hview.make (.register id value) hst) hreplay
  | setMemory address value => exact exists_redo (hview.make (.memory address value) hst) hreplay
  | raise cause => exact exists_redo (hview.make (.raise cause) hst) hreplay

/-- The entries of deeds can be replayed without asking for the pending cause in between. That comes
    to a state which looks the same. -/
theorem exists_replayAll (deeds : List (Deed ε)) (hst : view t = view s)
    (hreplay : replayDeeds deeds s = some s') :
    ∃ t', replayAll (entriesOf deeds) t = some t' ∧ view t' = view s' := by
  induction deeds generalizing s t with
  | nil =>
    cases hreplay
    exact ⟨t, rfl, hst⟩
  | cons deed rest ih =>
    cases deed with
    | poll => exact ih (hst.trans (hview.polled s).symm) hreplay
    | access entry =>
      rw [replayDeeds, List.foldlM_cons] at hreplay
      obtain ⟨u, hentry, hrest⟩ := Option.bind_eq_some_iff.mp hreplay
      obtain ⟨u', hentry', hu⟩ := hview.exists_replay entry hst hentry
      obtain ⟨t', hrest', ht'⟩ := ih hu hrest
      refine ⟨t', ?_, ht'⟩
      rw [entriesOf_access, replayAll, List.foldlM_cons, hentry']
      exact hrest'

end PolledMachine.Indifferent

end View

end RiscvSemantics
