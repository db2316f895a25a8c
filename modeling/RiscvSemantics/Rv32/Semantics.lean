import RiscvSemantics.Isa.Cause
import RiscvSemantics.Isa.Xlen
import RiscvSemantics.Rv32.Encoding

namespace RiscvSemantics.Rv32

/-- A register that an instruction names. -/
def readRegister (format : Format) (field : Field) : Expr :=
  .register (.operand format field)

def rs1 (format : Format) : Expr :=
  readRegister format .rs1

def rs2 (format : Format) : Expr :=
  readRegister format .rs2

/-- The immediate, widened with its sign. -/
def imm (format : Format) : Expr :=
  .signExtend 32 (.operand format .imm)

/-- The address of the instruction that follows. -/
def nextPc : Expr :=
  Expr.pc.add .instructionBytes

/-- Whether an address is no place for an instruction: its low two bits are not
    zero. -/
def misaligned (target : Expr) : Expr :=
  ((Expr.extract 0 2 target).equal (.literal ⟨2, 0#2, by decide⟩)).not

def setRd (format : Format) (value : Expr) : Statement Cause :=
  .setRegister (.operand format .rd) value

def advance : Statement Cause :=
  .setPc nextPc

/-- The address of byte `k` of a load or store. -/
def effectiveAddress (format : Format) (k : Nat) : Expr :=
  ((rs1 format).add (imm format)).add (.literal ⟨32, BitVec.ofNat 32 k, Xlen.rv32.bits_le⟩)

/-- Byte `k` of what is loaded. -/
def loadedByte (k : Nat) : Expr :=
  .memory (effectiveAddress .I k)

/-- What is loaded from so many bytes, the first of which is the lowest. The highest
    is read first. -/
def loaded (bytes : Nat) : Expr :=
  (List.range (bytes - 1)).reverse.foldl (fun high k => .concat high (loadedByte k))
    (loadedByte (bytes - 1))

/-- Computes a value for `rd` and goes on to the next instruction. -/
def compute (format : Format) (value : Expr) : Formula Cause :=
  ⟨[setRd format value, advance]⟩

/-- Stores the low bytes of `rs2`, the lowest first. -/
def store (bytes : Nat) : Formula Cause :=
  let storeByte (k : Nat) : Statement Cause :=
    .setMemory (effectiveAddress .S k) (.extract (8 * k) 8 (rs2 .S))
  ⟨(List.range bytes).map storeByte ++ [advance]⟩

/-- Where a branch or jump goes. -/
def target (format : Format) : Expr :=
  Expr.pc.add (imm format)

/-- Goes to the target if the condition holds and the target is aligned. A branch to
    a misaligned target traps and stays where it is. -/
def branch (condition : Expr) : Formula Cause :=
  ⟨[.raiseIf (condition.and (misaligned (target .B))) .misalignedPc,
    .setPc (.select condition (.select (misaligned (target .B)) .pc (target .B)) nextPc)]⟩

/-- Goes to the target and leaves the address behind the jump in `rd`. A jump to a
    misaligned target traps and changes neither `rd` nor the program counter. -/
def jump : Formula Cause :=
  ⟨[.raiseIf (misaligned (target .J)) .misalignedPc,
    setRd .J (.select (misaligned (target .J)) (readRegister .J .rd) nextPc),
    .setPc (.select (misaligned (target .J)) .pc (target .J))]⟩

/-- The upper immediate, above twelve zeros. -/
def upper : Expr :=
  .concat (.operand .U .imm) (.literal Word.belowUpper)

/-- The amount of an immediate shift: the low five bits of the immediate. -/
def shiftAmount : Expr :=
  .extract 0 5 (.operand .I .imm)

/-- The amount of a register shift: the low five bits of `rs2`. -/
def shiftRegister : Expr :=
  .extract 0 5 (rs2 .R)

/-- Combines `rs1` and `rs2` by an operator. -/
def combineRegisters (op : BinaryOp) : Formula Cause :=
  compute .R (.binary op (rs1 .R) (rs2 .R))

/-- What each instruction does. -/
def Opcode.semantics : Opcode → Formula Cause
  | .lui => compute .U upper
  | .auipc => compute .U (Expr.pc.add upper)
  | .jal => jump
  | .beq => branch ((rs1 .B).equal (rs2 .B))
  | .bne => branch ((rs1 .B).equal (rs2 .B)).not
  | .blt => branch ((rs1 .B).lessSigned (rs2 .B))
  | .bge => branch ((rs1 .B).lessSigned (rs2 .B)).not
  | .bltu => branch ((rs1 .B).lessUnsigned (rs2 .B))
  | .bgeu => branch ((rs1 .B).lessUnsigned (rs2 .B)).not
  | .lb => compute .I (.signExtend 32 (loaded 1))
  | .lh => compute .I (.signExtend 32 (loaded 2))
  | .lw => compute .I (loaded 4)
  | .lbu => compute .I (.zeroExtend 32 (loaded 1))
  | .lhu => compute .I (.zeroExtend 32 (loaded 2))
  | .sb => store 1
  | .sh => store 2
  | .sw => store 4
  | .addi => compute .I ((rs1 .I).add (imm .I))
  | .slti => compute .I (.zeroExtend 32 ((rs1 .I).lessSigned (imm .I)))
  | .sltiu => compute .I (.zeroExtend 32 ((rs1 .I).lessUnsigned (imm .I)))
  | .xori => compute .I ((rs1 .I).xor (imm .I))
  | .ori => compute .I ((rs1 .I).or (imm .I))
  | .andi => compute .I ((rs1 .I).and (imm .I))
  | .slli => compute .I ((rs1 .I).shiftLeft shiftAmount)
  | .srli => compute .I ((rs1 .I).shiftRight shiftAmount)
  | .srai => compute .I ((rs1 .I).shiftRightSigned shiftAmount)
  | .add => combineRegisters .add
  | .sub => combineRegisters .sub
  | .sll => compute .R ((rs1 .R).shiftLeft shiftRegister)
  | .slt => compute .R (.zeroExtend 32 ((rs1 .R).lessSigned (rs2 .R)))
  | .sltu => compute .R (.zeroExtend 32 ((rs1 .R).lessUnsigned (rs2 .R)))
  | .xor => combineRegisters .xor
  | .srl => compute .R ((rs1 .R).shiftRight shiftRegister)
  | .sra => compute .R ((rs1 .R).shiftRightSigned shiftRegister)
  | .or => combineRegisters .or
  | .and => combineRegisters .and
  | .mul => combineRegisters .mul
  | .mulh => combineRegisters .mulHighSigned
  | .mulhsu => combineRegisters .mulHighSignedUnsigned
  | .mulhu => combineRegisters .mulHighUnsigned
  | .div => combineRegisters .divSigned
  | .divu => combineRegisters .divUnsigned
  | .rem => combineRegisters .remSigned
  | .remu => combineRegisters .remUnsigned

/-- The formulas of all opcodes, in order. -/
def formulas : Array (Formula Cause) :=
  (Opcode.all.map Opcode.semantics).toArray

theorem formulas_index (opcode : Opcode) : formulas[opcode.index]? = some opcode.semantics := by
  rw [formulas, List.getElem?_toArray, List.getElem?_map, opcode.all_index, Option.map_some]

theorem index_lt_size (opcode : Opcode) : opcode.index < formulas.size :=
  (Array.getElem?_eq_some_iff.mp (formulas_index opcode)).1

/-- RV32I and RV32M without fences, system instructions and JALR. JALR writes `rd`
    and jumps to an address that it computes from `rs1`; where the two are one
    register, one statement would see what the other wrote. The formula of an opcode is
    looked up by its number. -/
def catalog : Catalog Opcode Cause where
  decode := decode
  semantics opcode :=
    have := index_lt_size opcode
    formulas[opcode.index]

/-- The table lines up with the opcodes. -/
theorem catalog_semantics (opcode : Opcode) : catalog.semantics opcode = opcode.semantics :=
  (Array.getElem?_eq_some_iff.mp (formulas_index opcode)).2

end RiscvSemantics.Rv32
