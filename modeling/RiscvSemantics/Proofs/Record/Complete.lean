import RiscvSemantics.Proofs.Machine.Probe
import RiscvSemantics.Rv32.Semantics

namespace RiscvSemantics

variable {σ τ ε ω : Type}

open Interpretation

section Polled

variable [PolledMachine σ ε] {valid : σ → Prop} {s : σ} {view : σ → τ}

/-- A run on a machine that does not fault, neither by an access nor for being asked, returns. -/
theorem Machine.Faultless.runPolled_ne_fault (hfaultless : Machine.Faultless valid)
    (hpolled : ∀ s, valid s → valid (PolledMachine.polled s)) (catalog : Catalog ω ε) (budget : Nat)
    (hvalid : valid s) (fault : Fault) : (runPolled catalog budget s).1 ≠ .error (.fault fault) := by
  induction budget generalizing s with
  | zero =>
    intro hfault
    cases hfault
  | succ budget ih =>
    have hdialogue := catalog.stepDialogue_faultless (Machine.xlen σ) Machine.xlen_le
    have hreturns := hfaultless.run_returns hdialogue (hpolled s hvalid)
    have hstays := hfaultless.run_valid hdialogue (hpolled s hvalid)
    rw [← step_eq_run] at hreturns hstays
    rw [runPolled_succ]
    cases Machine.pending s with
    | some cause =>
      intro hfault
      cases hfault
    | none =>
      cases hstep : step catalog (PolledMachine.polled s) with
      | mk answer t =>
        rw [Interpretation.Returns, hstep] at hreturns
        rw [hstep] at hstays
        cases answer with
        | ok u =>
          simp only [bind_of_ok hstep]
          exact ih hstays
        | error stop =>
          simp only [bind_of_error hstep]
          obtain ⟨_, hvalue⟩ | ⟨_, herror⟩ := hreturns
          · cases hvalue
          · cases herror
            intro hfault
            cases hfault

/-- Where being asked changes nothing, the whole machine stays the same. -/
theorem PolledMachine.indifferent_of_quiet (hquiet : ∀ s : σ, PolledMachine.polled s = s) :
    PolledMachine.Indifferent (id : σ → σ) where
  polled := hquiet
  ask _ hview := by
    cases hview
    exact ⟨rfl, rfl⟩
  make _ hview := by
    cases hview
    exact ⟨rfl, rfl⟩

/-- A view of a machine, together with its record. -/
def Recorded.viewed (view : σ → τ) (recorded : Recorded σ ε) : τ × Array (Access ε) :=
  (view recorded.machine, recorded.record)

theorem Recorded.indifferent (hview : PolledMachine.Indifferent view) :
    PolledMachine.Indifferent (Recorded.viewed view : Recorded σ ε → τ × Array (Access ε)) where
  polled recorded := congrArg (·, recorded.record) (hview.polled recorded.machine)
  ask := by
    rintro ⟨s, record⟩ ⟨t, record'⟩ q hst
    obtain ⟨hmachine, hrecord⟩ := Prod.mk.inj hst
    obtain rfl : record' = record := hrecord
    obtain ⟨hanswer, hlike⟩ := hview.ask q hmachine
    cases hs : (q.ask : Action σ Bits) s with
    | mk answer s' =>
      cases ht : (q.ask : Action σ Bits) t with
      | mk answer' t' =>
        rw [hs, ht] at hanswer hlike
        obtain rfl : answer' = answer := hanswer
        cases answer' with
        | ok value =>
          rw [Recorded.ask_eq hs, Recorded.ask_eq ht]
          exact ⟨rfl, congrArg (·, _) hlike⟩
        | error fault =>
          rw [Recorded.ask_fault hs, Recorded.ask_fault ht]
          exact ⟨rfl, congrArg (·, _) hlike⟩
  make := by
    rintro ⟨s, record⟩ ⟨t, record'⟩ c hst
    obtain ⟨hmachine, hrecord⟩ := Prod.mk.inj hst
    obtain rfl : record' = record := hrecord
    obtain ⟨hanswer, hlike⟩ := hview.make c hmachine
    cases hs : (c.make : Action σ Unit) s with
    | mk answer s' =>
      cases ht : (c.make : Action σ Unit) t with
      | mk answer' t' =>
        rw [hs, ht] at hanswer hlike
        obtain rfl : answer' = answer := hanswer
        rw [Recorded.make_eq hs, Recorded.make_eq ht]
        exact ⟨rfl, congrArg (·, _) hlike⟩

/-- A machine that does not fault in the states that `valid` admits, neither by an access nor for
    being asked, and a view of it that shows nothing of being asked. -/
structure PolledMachine.Replayable (valid : σ → Prop) (view : σ → τ) : Prop where
  faultless : Machine.Faultless valid
  polled : ∀ s, valid s → valid (PolledMachine.polled s)
  indifferent : Indifferent view

/-- All of a hart can be replayed. -/
theorem Hart.replayable (x : Xlen) : PolledMachine.Replayable (fun _ : Hart x => True) id where
  faultless := faultless x
  polled _ _ := trivial
  indifferent := PolledMachine.indifferent_of_quiet fun _ => rfl

theorem Sparse.replayable : PolledMachine.Replayable (fun sparse : Sparse => sparse.widths.Fit) id where
  faultless := faultless
  polled _ hfit := hfit
  indifferent := PolledMachine.indifferent_of_quiet fun _ => rfl

/-- All of a probe can be replayed but the count. -/
theorem Probe.replayable :
    PolledMachine.Replayable (fun probe : Probe ε => probe.cellWidth.getD 8 ≤ 64) unpolled where
  faultless := faultless
  polled _ hwidth := hwidth
  indifferent := indifferent

theorem Recorded.replayable (h : PolledMachine.Replayable valid view) :
    PolledMachine.Replayable (fun recorded : Recorded σ ε => valid recorded.machine) (viewed view) where
  faultless := faultless h.faultless
  polled recorded := h.polled recorded.machine
  indifferent := indifferent h.indifferent

namespace Recorded

/-- What a run on a machine has to do with the same one on the machine with a record. The record
    changes neither the answer nor the machine, and it gains the entries of what the run does, in
    order. Unless the machine faults, what the run does can be done once more on the machine as it was
    before: every read gives its value again, and the machine ends as after the run. From the entries
    alone, without asking for the pending cause in between, it ends in a state which looks the same,
    but for what being asked has left. -/
structure RunsTransparently (catalog : Catalog ω ε) (budget : Nat) (m : σ) (record : Array (Access ε)) :
    Prop where
  answer : (runPolled catalog budget (⟨m, record⟩ : Recorded σ ε)).1 = (runPolled catalog budget m).1
  machine : (runPolled catalog budget (⟨m, record⟩ : Recorded σ ε)).2.machine = (runPolled catalog budget m).2
  record : (runPolled catalog budget (⟨m, record⟩ : Recorded σ ε)).2.record.toList =
    record.toList ++ entriesOf (catalog.deeds budget m)
  replay : (∀ fault, (runPolled catalog budget m).1 ≠ .error (.fault fault)) →
    replayDeeds (catalog.deeds budget m) m = some (runPolled catalog budget m).2
  replayEntries : (∀ fault, (runPolled catalog budget m).1 ≠ .error (.fault fault)) →
    ∀ {τ : Type} {view : σ → τ}, PolledMachine.Indifferent view →
      ∃ t, replayAll (entriesOf (catalog.deeds budget m)) m = some t ∧
        view t = view (runPolled catalog budget m).2
  returns : ∀ {τ : Type} {valid : σ → Prop} {view : σ → τ}, PolledMachine.Replayable valid view → valid m →
    ∀ fault, (runPolled catalog budget m).1 ≠ .error (.fault fault)

theorem runsTransparently (catalog : Catalog ω ε) (budget : Nat) (m : σ) (record : Array (Access ε)) :
    RunsTransparently catalog budget m record where
  answer := by rw [runPolled_recorded]
  machine := by rw [runPolled_recorded]
  record := by rw [runPolled_recorded, Array.toList_append]
  replay := replayDeeds_deeds catalog budget m
  replayEntries hreturns _ _ hview := hview.exists_replayAll _ rfl (replayDeeds_deeds catalog budget m hreturns)
  returns h hvalid := h.faultless.runPolled_ne_fault h.polled catalog budget hvalid

/-- Recording is transparent. On every machine and whatever it has recorded before, the evaluation of
    every expression, every formula, and every step and run with every catalog do with a record what
    they do without, and the record gains their accesses. Unless the machine faults, they can be
    replayed. Evaluations, formulas and steps never ask for the pending cause, so their accesses are
    all that they do. Runs do, and nothing is recorded of that: from the record a run can be replayed
    up to what being asked leaves. That is nothing on a hart or a sparse machine, where a run is one
    that only glances at the machine, and the count on a probe. -/
theorem transparent (m : σ) (record : Array (Access ε)) (instruction : Instruction) :
    (∀ e : Expr, Transparent (e.dialogue instruction (Machine.xlen σ) Machine.xlen_le)
        (e.eval instruction) (e.eval instruction) m record) ∧
      (∀ formula : Formula ε, Transparent
        (Statement.dialogueAll instruction (Machine.xlen σ) Machine.xlen_le formula.statements)
        (formula.execute instruction) (formula.execute instruction) m record) ∧
      (∀ {ω : Type} (catalog : Catalog ω ε),
        Transparent (catalog.stepDialogue (Machine.xlen σ) Machine.xlen_le) (step catalog) (step catalog)
          m record ∧
        ∀ budget, RunsTransparently catalog budget m record ∧
          ((∀ s : σ, PolledMachine.polled s = s) →
            (runPolled catalog budget : Interpretation σ RunError (Option ε)) = run catalog budget)) ∧
      (∀ x : Xlen, PolledMachine.Replayable (fun _ : Hart x => True) id) ∧
      PolledMachine.Replayable (fun sparse : Sparse => sparse.widths.Fit) id ∧
      PolledMachine.Replayable (fun probe : Probe ε => probe.cellWidth.getD 8 ≤ 64) Probe.unpolled ∧
      ∀ {τ : Type} {valid : σ → Prop} {view : σ → τ}, PolledMachine.Replayable valid view →
        PolledMachine.Replayable (fun recorded : Recorded σ ε => valid recorded.machine) (viewed view) := by
  refine ⟨fun e => ?_, fun formula => ?_, fun catalog => ⟨?_, fun budget => ⟨?_, fun hquiet => ?_⟩⟩,
    Hart.replayable, Sparse.replayable, Probe.replayable, replayable⟩
  · rw [Expr.eval_eq_run, Expr.eval_eq_run]
    exact transparent_run (e.dialogue_faultless instruction _ _) m record
  · rw [Formula.execute, Formula.execute, Statement.executeAll_eq_run, Statement.executeAll_eq_run]
    exact transparent_run (Statement.dialogueAll_faultless instruction _ _ _) m record
  · rw [step_eq_run, step_eq_run]
    exact transparent_run (catalog.stepDialogue_faultless _ _) m record
  · exact runsTransparently catalog budget m record
  · exact runPolled_eq_run hquiet catalog budget

/-- `addi x1, x0, 6` in the memory of a probe is fetched by five accesses and executed by four. Its run
    can be replayed from them, up to the count. -/
theorem replays_addition :
    let probe : Probe Cause := { Probe.new with memory := .ofList [(0, 0x93#8), (2, 0x60#8)] }
    let entries := entriesOf (Rv32.catalog.deeds 1 probe)
    entries.length = 9 ∧ ∃ t, replayAll entries probe = some t ∧
      t.unpolled = (runPolled Rv32.catalog 1 probe).2.unpolled := by
  intro probe entries
  obtain ⟨_, _, hcatalog, _, _, hprobe, _⟩ := transparent probe #[] ⟨⟨.U, [.ofByte 0, .ofByte 0], rfl⟩, 4⟩
  obtain ⟨_, hrun⟩ := hcatalog Rv32.catalog
  obtain ⟨hruns, _⟩ := hrun 1
  have hreturns := hruns.returns hprobe (by decide)
  exact ⟨by decide +kernel, hruns.replayEntries hreturns hprobe.indifferent⟩

end Recorded

/-- A run that halts at once asks for the pending cause and records nothing. Its record tells nothing
    of that, so replaying it does not come to the state that the run has left. -/
theorem Probe.status_check_unrecorded :
    let probe : Probe Cause := { Probe.new with trap := some .breakpoint }
    let recorded : Recorded (Probe Cause) Cause := Recorded.new probe
    let after := (runPolled Rv32.catalog 1 recorded).2
    (runPolled Rv32.catalog 1 recorded).1.toOption = some (some .breakpoint) ∧
      after.record.toList = [] ∧ probe.statusChecks = 0 ∧ after.machine.statusChecks = 1 ∧
      replayAll after.record.toList probe ≠ some after.machine := by
  intro probe recorded after
  refine ⟨rfl, rfl, rfl, rfl, fun hreplay => ?_⟩
  have hcount := congrArg (Option.map statusChecks) hreplay
  cases hcount

end Polled

end RiscvSemantics
