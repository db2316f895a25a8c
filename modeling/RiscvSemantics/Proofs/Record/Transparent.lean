import RiscvSemantics.Proofs.Dialogue.Run
import RiscvSemantics.Proofs.Faultless.Interpreter
import RiscvSemantics.Proofs.Record.Replay

namespace RiscvSemantics

variable {σ ε δ α : Type} [Machine σ ε]

namespace Dialogue

/-- The accesses that a dialogue makes to a machine, in order: every question that was
    answered, with its answer, and every change. -/
def calls : Dialogue ε δ α → σ → List (Access ε)
  | done _, _ => []
  | look next, s => (next (Machine.extensions s) (Machine.pending s)).calls s
  | ask q next, s =>
    match (q.ask : Action σ Bits) s with
    | (.ok value, s') => q.access value :: (next value).calls s'
    | (.error _, _) => []
  | make c next, s =>
    c.access ::
      match (c.make : Action σ Unit) s with
      | (.ok (), s') => next.calls s'
      | (.error _, _) => []

/-- Held with a recorded machine, a dialogue goes as with the machine, and the record gains
    its accesses. -/
theorem run_recorded (d : Dialogue ε δ α) (s : σ) (record : Array (Access ε)) :
    (d.run : Interpretation (Recorded σ ε) δ α) ⟨s, record⟩ =
      (((d.run : Interpretation σ δ α) s).1,
        ⟨((d.run : Interpretation σ δ α) s).2, record ++ (d.calls s).toArray⟩) := by
  induction d generalizing s record with
  | done answer => simp only [run, calls, Array.append_empty]
  | look next ih => exact ih (Machine.extensions s) (Machine.pending s) s record
  | ask q next ih =>
    cases hask : (q.ask : Action σ Bits) s with
    | mk answer s' =>
      cases answer with
      | ok value =>
        rw [run_ask (Recorded.ask_eq hask record), run_ask hask, ih value]
        simp only [calls, hask]
        simp
      | error fault =>
        rw [run_ask_fault (Recorded.ask_fault hask record), run_ask_fault hask]
        simp only [calls, hask, Array.append_empty]
  | make c next ih =>
    cases hmake : (c.make : Action σ Unit) s with
    | mk answer s' =>
      cases answer with
      | ok u =>
        rw [run_make (Recorded.make_eq hmake record), run_make hmake, ih]
        simp only [calls, hmake]
        simp
      | error fault =>
        rw [run_make_fault (Recorded.make_eq hmake record), run_make_fault hmake]
        simp only [calls, hmake]
        simp

/-- The accesses of a dialogue that does not end in a fault can be replayed: every read gives
    the same value again, and the machine comes to the same state. -/
theorem replayAll_calls (d : Dialogue ε δ α) (s : σ)
    (hreturns : ∀ fault, ((d.run : Interpretation σ δ α) s).1 ≠ .error (.fault fault)) :
    replayAll (d.calls s) s = some ((d.run : Interpretation σ δ α) s).2 := by
  induction d generalizing s with
  | done answer => rfl
  | look next ih => exact ih _ _ s hreturns
  | ask q next ih =>
    cases hask : (q.ask : Action σ Bits) s with
    | mk answer s' =>
      cases answer with
      | ok value =>
        rw [run_ask hask] at hreturns ⊢
        simp only [calls, hask, replayAll, List.foldlM_cons, replay_access hask]
        exact ih value s' hreturns
      | error fault =>
        rw [run_ask_fault hask] at hreturns
        exact absurd rfl (hreturns fault)
  | make c next ih =>
    cases hmake : (c.make : Action σ Unit) s with
    | mk answer s' =>
      cases answer with
      | ok u =>
        rw [run_make hmake] at hreturns ⊢
        simp only [calls, hmake, replayAll, List.foldlM_cons, c.replay_access hmake]
        exact ih s' hreturns
      | error fault =>
        rw [run_make_fault hmake] at hreturns
        exact absurd rfl (hreturns fault)

end Dialogue

namespace Recorded

/-- What an interpretation on a machine has to do with the same one on the machine with a
    record, where a dialogue tells the accesses that it makes. The record changes neither
    the answer nor the machine, and it gains an entry for every access, in order. Unless
    the machine faults, which it cannot if its accesses do not, the new entries can be
    replayed on the machine as it was before. -/
structure Transparent (d : Dialogue ε δ α) (plain : Interpretation σ δ α)
    (recorded : Interpretation (Recorded σ ε) δ α) (m : σ) (record : Array (Access ε)) : Prop where
  held : plain = d.run
  answer : (recorded ⟨m, record⟩).1 = (plain m).1
  machine : (recorded ⟨m, record⟩).2.machine = (plain m).2
  record : (recorded ⟨m, record⟩).2.record.toList = record.toList ++ d.calls m
  replay : (∀ fault, (plain m).1 ≠ .error (.fault fault)) → replayAll (d.calls m) m = some (plain m).2
  returns : ∀ {valid : σ → Prop}, Machine.Faultless valid → valid m →
    ∀ fault, (plain m).1 ≠ .error (.fault fault)

theorem transparent_run {d : Dialogue ε δ α} (hd : d.Faultless) (m : σ) (record : Array (Access ε)) :
    Transparent d d.run d.run m record where
  held := rfl
  answer := by rw [d.run_recorded]
  machine := by rw [d.run_recorded]
  record := by rw [d.run_recorded, Array.toList_append]
  replay := d.replayAll_calls m
  returns := by
    intro valid hfaultless hvalid fault hfault
    obtain ⟨a, hvalue⟩ | ⟨e, herror⟩ := hfaultless.run_returns hd hvalid
    · rw [hvalue] at hfault
      cases hfault
    · rw [herror] at hfault
      cases hfault

end Recorded

end RiscvSemantics
