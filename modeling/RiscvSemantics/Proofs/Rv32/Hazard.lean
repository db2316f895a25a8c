import RiscvSemantics.Proofs.Formula.AtOnce
import RiscvSemantics.Proofs.Rv32.Contract

namespace RiscvSemantics.Rv32

theorem Opcode.hazardFree (opcode : Opcode) : Statement.HazardFree opcode.semantics.statements := by
  cases opcode <;> decide

/-- The formula that JALR would have does have a hazard: its second statement reads `rs1` where
    its first one has written `rd`. -/
example : ¬Statement.HazardFree [setRd .I nextPc,
    .setPc (((rs1 .I).add (imm .I)).and (Expr.not (.literal ⟨32, 1#32, Xlen.rv32.bits_le⟩)))] := by
  decide

/-- No formula depends on the order of its statements. Whatever a word is decoded to, and on
    every hart, whichever registers coincide and whatever faults come up, executing its statements
    one after the other leaves the hart that executing them at once does. -/
theorem execute_eq_executeAtOnce {w : Word} {extensions : Extensions} {decoded : Decoded Opcode}
    (hdecode : decode w extensions = some decoded) (hart : Hart .rv32) :
    ∃ after, decoded.opcode.semantics.execute ⟨decoded.operands, instructionBytes⟩ hart = (.ok (), after) ∧
      decoded.opcode.semantics.executeAtOnce ⟨decoded.operands, instructionBytes⟩ hart = (.ok (), after) :=
  Formula.execute_eq_atOnce decoded.opcode.hazardFree (firstViolation_of_decode hdecode) hart

/-- `lw x1, 0(x1)` loads itself from address 0 over the register that it takes the address from. -/
theorem executeAtOnce_in_place :
    let hart : Hart .rv32 :=
      ⟨Vector.replicate 32 0#32, ⟨#[0x83, 0xa0, 0x00, 0x00]⟩, Extensions.none, none⟩
    let instruction : Instruction := ⟨Word.operands 0x0000a083#32 .I, instructionBytes⟩
    decode 0x0000a083#32 Extensions.none = some ⟨.lw, Word.operands 0x0000a083#32 .I⟩ ∧
      ∃ after, Opcode.lw.semantics.executeAtOnce instruction hart = (.ok (), after) ∧
        (after.register 1).toNat = 0xa083 := by
  intro hart instruction
  have hdecode : decode 0x0000a083#32 Extensions.none = some ⟨.lw, Word.operands 0x0000a083#32 .I⟩ := by
    decide
  obtain ⟨after, hexecute, hatOnce⟩ := execute_eq_executeAtOnce hdecode hart
  refine ⟨hdecode, after, hatOnce, ?_⟩
  obtain rfl : (Opcode.lw.semantics.execute instruction hart).2 = after := congrArg Prod.snd hexecute
  decide +kernel

end RiscvSemantics.Rv32
