import RiscvSemantics.Proofs.Hart.Frame

namespace RiscvSemantics

variable {σ ε ω : Type} {x : Xlen}

open Dialogue Interpretation

section Recorded

variable [Machine σ ε]

/-- A step of a machine that has an empty record before. -/
def Catalog.recordedStep (catalog : Catalog ω ε) (s : σ) : Except (Stop RunError) Unit × Recorded σ ε :=
  (step catalog : Interpretation (Recorded σ ε) RunError Unit) (Recorded.new s)

/-- With a record a step does what it does without one, and the record tells what its dialogue
    calls. -/
theorem recordedStep_eq (catalog : Catalog ω ε) (s : σ) :
    (catalog.recordedStep s).2.machine = (step catalog s).2 ∧
      (catalog.recordedStep s).2.record.toList =
        (catalog.stepDialogue (Machine.xlen σ) Machine.xlen_le).calls s := by
  have hrun := Dialogue.run_recorded (catalog.stepDialogue (Machine.xlen σ) Machine.xlen_le) s #[]
  rw [Array.empty_append] at hrun
  rw [Catalog.recordedStep, step_eq_run, step_eq_run]
  exact ⟨congrArg (·.2.machine) hrun, congrArg (·.2.record.toList) hrun⟩

end Recorded

namespace Hart

/-- What a step comes to once the instruction is fetched, and where what it raises is raised.
    Either nothing is executed, and nothing is raised, or a formula is, and raises it. -/
inductive Continues (catalog : Catalog ω Cause) (hart fetched : Hart x) : Prop where
  | idle (hstep : (step catalog hart).2 = fetched)
      (hquiet : ∀ cause, Access.raise cause ∉ (catalog.stepDialogue x.bits x.bits_le).calls hart)
  | execute (word : BitVec 32) (decoded : Decoded ω)
      (hdecode : catalog.decode word hart.extensions = some decoded)
      (hstep : (step catalog hart).2 =
        ((catalog.semantics decoded.opcode).execute ⟨decoded.operands, instructionBytes⟩ fetched).2)
      (hraised : ∀ cause, Access.raise cause ∈ (catalog.stepDialogue x.bits x.bits_le).calls hart →
        Access.raise cause ∈ (Statement.dialogueAll ⟨decoded.operands, instructionBytes⟩ x.bits x.bits_le
          (catalog.semantics decoded.opcode).statements).calls fetched)

/-- A fetch raises nothing itself, so what a step raises comes from what follows the fetch. -/
theorem raise_mem_calls_step {catalog : Catalog ω Cause} {hart : Hart x} {cause : Cause}
    (hmem : Access.raise cause ∈ (catalog.stepDialogue x.bits x.bits_le).calls hart) :
    ∃ pc word fetched, (act fetch : Interpretation (Hart x) RunError _) hart = (.ok (pc, word), fetched) ∧
      Access.raise cause ∈
        (catalog.executeDialogue x.bits x.bits_le pc word fetched.extensions).calls fetched := by
  obtain hearly | ⟨⟨pc, word⟩, fetched, hfetch, hlate⟩ := mem_calls_bind _ _ hmem
  · exact absurd hearly (fetchDialogue_confined.raise_notMem_calls id cause)
  · exact ⟨pc, word, fetched, (congrFun act_fetch_eq_run hart).trans hfetch, hlate⟩

/-- A fetch changes nothing but what is pending. -/
theorem step_continues (catalog : Catalog ω Cause) (hart : Hart x) :
    ∃ trap, Continues catalog hart { hart with trap } := by
  have hconfined : (fetchDialogue : Dialogue Cause RunError (Bits × BitVec 32)).Confined _ _ _ :=
    fetchDialogue_confined
  obtain ⟨trap, hfetched⟩ := hconfined.run_eq_of_reads hart
  rw [← act_fetch_eq_run] at hfetched
  refine ⟨trap, ?_⟩
  have hstep : (step catalog hart).2 = ((catalog.stepDialogue x.bits x.bits_le).run hart).2 := by
    rw [step_eq_run]
    rfl
  rw [Catalog.stepDialogue, run_bind, ← act_fetch_eq_run] at hstep
  cases hfetch : (act fetch : Interpretation (Hart x) RunError (Bits × BitVec 32)) hart with
  | mk answer fetched =>
    rw [hfetch] at hfetched
    obtain rfl : fetched = { hart with trap } := hfetched
    cases answer with
    | error stop =>
      refine .idle ?_ fun cause hmem => ?_
      · rw [hstep, bind_of_error hfetch]
      · obtain ⟨_, _, _, hother, _⟩ := raise_mem_calls_step hmem
        cases hfetch.symm.trans hother
    | ok word =>
      obtain ⟨pc, word⟩ := word
      have hexecute : (step catalog hart).2 = ((catalog.executeDialogue x.bits x.bits_le pc word
          hart.extensions).run ({ hart with trap } : Hart x)).2 := by
        rw [hstep, bind_of_ok hfetch]
        rfl
      have hraised (cause : Cause)
          (hmem : Access.raise cause ∈ (catalog.stepDialogue x.bits x.bits_le).calls hart) :
          Access.raise cause ∈
            (catalog.executeDialogue x.bits x.bits_le pc word hart.extensions).calls { hart with trap } := by
        obtain ⟨_, _, _, hother, hlate⟩ := raise_mem_calls_step hmem
        cases hfetch.symm.trans hother
        exact hlate
      cases hdecode : catalog.decode word hart.extensions with
      | none =>
        simp only [Catalog.executeDialogue, hdecode] at hexecute hraised
        exact .idle hexecute fun cause hmem => List.not_mem_nil (hraised cause hmem)
      | some decoded =>
        simp only [Catalog.executeDialogue, hdecode, calls_mapError, run_mapError] at hexecute hraised
        refine .execute word decoded hdecode (hexecute.trans ?_) hraised
        rw [Formula.execute, Statement.executeAll_eq_run]
        rfl

end Hart

end RiscvSemantics
