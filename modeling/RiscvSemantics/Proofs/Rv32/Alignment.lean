import RiscvSemantics.Proofs.Hart.Step
import RiscvSemantics.Proofs.Run.Progress
import RiscvSemantics.Proofs.Rv32.Transfer

namespace RiscvSemantics.Rv32

open Dialogue Interpretation

/-- An address is a place for an instruction. -/
def Aligned (pc : BitVec 32) : Prop :=
  pc.toNat % 4 = 0

theorem Aligned.next {pc : BitVec 32} (haligned : Aligned pc) : Aligned (pc + 4#32) := by
  unfold Aligned at haligned ⊢
  rw [BitVec.toNat_add]
  have hfour : (4#32 : BitVec 32).toNat = 4 := rfl
  omega

/-- The opcode is no branch or jump: its formula ends by going on to the next instruction, and
    before that it neither sets the program counter nor raises a cause. -/
def Opcode.Advances (opcode : Opcode) : Prop :=
  opcode.semantics.statements = opcode.semantics.statements.dropLast ++ [advance] ∧
    ∀ statement ∈ opcode.semantics.statements.dropLast, statement.effect ≠ .pc ∧ statement.effect ≠ .trap

theorem Opcode.advances_or (opcode : Opcode) : opcode.Advances ∨ opcode ∈ branches ∨ opcode = .jal := by
  unfold Advances
  cases opcode <;> decide

/-- What executing statements does to an aligned program counter, and what is left of it once a
    misaligned one has been raised: all is as it was, but that a cause is pending. -/
structure KeepsAligned (instruction : Instruction) (statements : List (Statement Cause)) (hart : Hart .rv32) :
    Prop where
  aligned : Aligned hart.pc → Aligned (Statement.executeAll instruction statements hart).2.pc
  misaligned : Access.raise .misalignedPc ∈
      (Statement.dialogueAll instruction Xlen.rv32.bits Xlen.rv32.bits_le statements).calls hart →
    view (Statement.executeAll instruction statements hart).2 = (view hart).raise .misalignedPc

/-- Statements that end by going on to the next instruction do, unless they break off before. -/
theorem pc_executeAll_advance {instruction : Instruction} {before : List (Statement Cause)}
    (hbytes : instruction.bytes = instructionBytes) (hkeep : ∀ statement ∈ before, statement.effect ≠ .pc)
    (hart : Hart .rv32) :
    (Statement.executeAll instruction (before ++ [advance]) hart).2.pc = hart.pc ∨
      (Statement.executeAll instruction (before ++ [advance]) hart).2.pc = (view hart).pc + 4#32 := by
  have hpc := Statement.pc_executeAll instruction hkeep hart
  rw [Statement.executeAll_append_eq]
  cases hrun : (Statement.executeAll instruction before : Interpretation (Hart .rv32) Violation Unit) hart with
  | mk answer mid =>
    rw [hrun] at hpc
    cases answer with
    | error stop =>
      rw [bind_of_error hrun]
      exact .inl hpc
    | ok u =>
      have hadvance : Statement.executeAll instruction [advance] mid = (.ok (), _) :=
        Statement.executeAll_cons (execute_setPc (eval_nextPc hbytes)) rfl
      have hset : (mid.putPc ((view mid).pc + 4#32).toNat).pc = (view mid).pc + 4#32 :=
        congrArg Hart.View.pc view_putPc
      rw [bind_of_ok hrun, hadvance]
      exact .inr (hset.trans (congrArg (fun pc : BitVec 32 => pc + 4#32) hpc))

theorem keepsAligned_advance {instruction : Instruction} {before : List (Statement Cause)}
    (hbytes : instruction.bytes = instructionBytes)
    (hbefore : ∀ statement ∈ before, statement.effect ≠ .pc ∧ statement.effect ≠ .trap) (hart : Hart .rv32) :
    KeepsAligned instruction (before ++ [advance]) hart where
  aligned haligned := by
    obtain hstay | hgo := pc_executeAll_advance hbytes (fun statement hmem => (hbefore statement hmem).1) hart
    · rwa [hstay]
    · rw [hgo]
      exact haligned.next
  misaligned hmem := by
    have hquiet : ∀ statement ∈ before ++ [advance], statement.effect ≠ .trap := by
      refine List.forall_mem_append.mpr ⟨fun statement hmem => (hbefore statement hmem).2, ?_⟩
      exact List.forall_mem_singleton.mpr fun htrap => by cases htrap
    exact absurd hmem (Statement.raise_notMem_calls instruction hquiet hart)

theorem Transfers.aligned {w : Word} {opcode : Opcode} {before after : Hart.View 32}
    (htransfers : Transfers w opcode before after) (haligned : Aligned before.pc) : Aligned after.pc := by
  by_cases htakes : opcode.Takes (before.registers w.rs1.toFin) (before.registers w.rs2.toFin)
  · by_cases hdestination : (w.destination opcode before.pc).toNat % 4 = 0
    · rw [htransfers.taken htakes hdestination]
      split
      · next hjump =>
        subst hjump
        exact hdestination
      · exact hdestination
    · rw [htransfers.misaligned htakes hdestination]
      exact haligned
  · rw [htransfers.not_taken htakes]
    exact haligned.next

theorem keepsAligned_branch {opcode : Opcode} (hbranch : opcode ∈ branches) (w : Word) (hart : Hart .rv32) :
    KeepsAligned (w.instruction .B) opcode.semantics.statements hart := by
  obtain ⟨after, hexecute, htransfers⟩ := Transfers.branch hbranch w hart
  rw [Formula.execute] at hexecute
  refine ⟨fun haligned => ?_, fun hmem => ?_⟩
  · rw [hexecute]
    exact htransfers.aligned haligned
  · obtain ⟨condition, taken, hsemantics, htaken, hcondition⟩ := semantics_branch hbranch w hart
    have hraise := eval_and (hcondition hart.trap)
      (eval_misaligned (eval_branchTarget hbranch w hart hart.trap))
    have hquiet : ∀ statement ∈ (branch condition).statements.tail, statement.effect ≠ .trap :=
      List.forall_mem_singleton.mpr fun htrap => by cases htrap
    rw [hsemantics] at hmem
    have hone := Statement.condition_of_raise_mem_calls hraise hquiet hmem
    rw [toNat_ofBool_eq_one, Bool.and_eq_true, decide_eq_true_eq] at hone
    rw [hexecute]
    exact htransfers.misaligned (htaken.mp hone.1) hone.2

theorem keepsAligned_jump (w : Word) (hart : Hart .rv32) :
    KeepsAligned (w.instruction .J) jump.statements hart := by
  obtain ⟨after, hexecute, htransfers⟩ := Transfers.jump w hart
  rw [Formula.execute] at hexecute
  refine ⟨fun haligned => ?_, fun hmem => ?_⟩
  · rw [hexecute]
    exact htransfers.aligned haligned
  · have hraise := eval_misaligned (eval_jumpTarget w hart hart rfl)
    have hquiet : ∀ statement ∈ jump.statements.tail, statement.effect ≠ .trap := by
      decide
    have hone := Statement.condition_of_raise_mem_calls hraise hquiet hmem
    rw [toNat_ofBool_eq_one, decide_eq_true_eq] at hone
    rw [hexecute]
    exact htransfers.misaligned trivial hone

theorem format_of_branch : ∀ opcode ∈ branches, opcode.format = .B := by
  decide

theorem keepsAligned_of_decode {w : Word} {extensions : Extensions} {decoded : Decoded Opcode}
    (hdecode : decode w extensions = some decoded) (hart : Hart .rv32) :
    KeepsAligned ⟨decoded.operands, instructionBytes⟩ decoded.opcode.semantics.statements hart := by
  obtain ⟨opcode, rfl⟩ := eq_of_decode hdecode
  obtain ⟨hstatements, hbefore⟩ | hbranch | hjump := opcode.advances_or
  · have hadvance : KeepsAligned (w.instruction opcode.format) _ hart := keepsAligned_advance rfl hbefore hart
    rwa [← hstatements] at hadvance
  · rw [format_of_branch opcode hbranch]
    exact keepsAligned_branch hbranch w hart
  · obtain rfl : opcode = .jal := hjump
    exact keepsAligned_jump w hart

theorem aligned_step {hart : Hart .rv32} (haligned : Aligned hart.pc) : Aligned (step catalog hart).2.pc := by
  obtain ⟨trap, hcontinues⟩ := Hart.step_continues catalog hart
  cases hcontinues with
  | idle hstep _ =>
    rw [hstep]
    exact haligned
  | execute word decoded hdecode hstep _ =>
    rw [hstep, catalog_semantics]
    exact (keepsAligned_of_decode hdecode { hart with trap }).aligned haligned

/-- Two harts differ at most in what is pending. -/
structure SameState (before after : Hart .rv32) : Prop where
  pc : after.pc = before.pc
  register : after.register = before.register
  ram : after.ram = before.ram
  extensions : after.extensions = before.extensions

theorem SameState.of_view {before after : Hart .rv32} {trap : Option Cause}
    (hview : view after = { view before with trap }) : SameState before after :=
  ⟨congrArg Hart.View.pc hview, congrArg Hart.View.registers hview, congrArg Hart.View.ram hview,
    congrArg Hart.View.extensions hview⟩

/-- A step that raises a misaligned program counter leaves all as it was, but that a cause is
    pending. -/
theorem sameState_of_misaligned {hart : Hart .rv32}
    (hmem : Access.raise .misalignedPc ∈
      (catalog.stepDialogue Xlen.rv32.bits Xlen.rv32.bits_le).calls hart) :
    SameState hart (step catalog hart).2 := by
  obtain ⟨trap, hcontinues⟩ := Hart.step_continues catalog hart
  cases hcontinues with
  | idle _ hquiet => exact absurd hmem (hquiet _)
  | execute word decoded hdecode hstep hraised =>
    rw [catalog_semantics] at hstep hraised
    rw [hstep]
    exact .of_view ((keepsAligned_of_decode hdecode { hart with trap }).misaligned (hraised _ hmem))

/-- The program counter stays aligned. From a hart where it is a multiple of 4, whatever the
    memory, the registers and what is pending, it is one after every step of a run and in the end,
    however the run ends. A step in which a misaligned program counter is raised changes neither
    the program counter nor a register nor the memory, so the program counter still tells which
    jump it was. -/
theorem pc_stays_aligned {hart : Hart .rv32} (haligned : Aligned hart.pc) :
    (∀ k after, catalog.Passes hart k after → Aligned after.pc) ∧
      (∀ budget, Aligned (run catalog budget hart).2.pc) ∧
      ∀ before : Hart .rv32,
        Access.raise .misalignedPc ∈ (catalog.recordedStep before).2.record.toList →
          SameState before (catalog.recordedStep before).2.machine := by
  refine ⟨fun k after hpasses => ?_, fun budget => ?_, ?_⟩
  · exact hpasses.preserves (p := fun hart : Hart .rv32 => Aligned hart.pc) (fun _ => aligned_step) haligned
  · exact run_preserves (p := fun hart : Hart .rv32 => Aligned hart.pc) (fun _ => aligned_step) haligned
  · intro before hmem
    obtain ⟨hmachine, hrecord⟩ := recordedStep_eq catalog before
    rw [hrecord] at hmem
    rw [hmachine]
    exact sameState_of_misaligned hmem

/-- `beq x0, x0, 2` at address 0 stays there. -/
theorem misaligned_branch_stays :
    let hart : Hart .rv32 :=
      ⟨Vector.replicate 32 0#32, ⟨#[0x63, 0x01, 0x00, 0x00]⟩, Extensions.none, none⟩
    Aligned hart.pc ∧ Aligned (run catalog 2 hart).2.pc ∧
      Access.raise .misalignedPc ∈ (catalog.recordedStep hart).2.record.toList ∧
      (catalog.recordedStep hart).2.machine.pc = hart.pc := by
  intro hart
  have haligned : Aligned hart.pc := by
    unfold Aligned
    decide +kernel
  have hraised : Access.raise .misalignedPc ∈ (catalog.recordedStep hart).2.record.toList := by
    decide +kernel
  obtain ⟨_, hrun, hstay⟩ := pc_stays_aligned haligned
  exact ⟨haligned, hrun 2, hraised, (hstay hart hraised).pc⟩

end RiscvSemantics.Rv32
