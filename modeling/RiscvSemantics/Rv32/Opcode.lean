import RiscvSemantics.Formula.Format

namespace RiscvSemantics.Rv32

/-- The instructions of RV32I that are modelled, then those of RV32M. Left out are
    fences, system instructions and JALR. -/
inductive Opcode where
  | lui | auipc | jal
  | beq | bne | blt | bge | bltu | bgeu
  | lb | lh | lw | lbu | lhu
  | sb | sh | sw
  | addi | slti | sltiu | xori | ori | andi | slli | srli | srai
  | add | sub | sll | slt | sltu | xor | srl | sra | or | and
  | mul | mulh | mulhsu | mulhu | div | divu | rem | remu
deriving DecidableEq

namespace Opcode

/-- All opcodes, in order. -/
def all : List Opcode :=
  [.lui, .auipc, .jal, .beq, .bne, .blt, .bge, .bltu, .bgeu, .lb, .lh, .lw, .lbu, .lhu, .sb,
    .sh, .sw, .addi, .slti, .sltiu, .xori, .ori, .andi, .slli, .srli, .srai, .add, .sub, .sll,
    .slt, .sltu, .xor, .srl, .sra, .or, .and, .mul, .mulh, .mulhsu, .mulhu, .div, .divu, .rem,
    .remu]

/-- The number of an opcode, which are counted from the first on. -/
def index (opcode : Opcode) : Nat :=
  opcode.ctorIdx

/-- The numbers are the places among all opcodes. -/
theorem all_index (opcode : Opcode) : all[opcode.index]? = some opcode := by
  cases opcode <;> rfl

def name : Opcode → String
  | .lui => "Lui"
  | .auipc => "Auipc"
  | .jal => "Jal"
  | .beq => "Beq"
  | .bne => "Bne"
  | .blt => "Blt"
  | .bge => "Bge"
  | .bltu => "Bltu"
  | .bgeu => "Bgeu"
  | .lb => "Lb"
  | .lh => "Lh"
  | .lw => "Lw"
  | .lbu => "Lbu"
  | .lhu => "Lhu"
  | .sb => "Sb"
  | .sh => "Sh"
  | .sw => "Sw"
  | .addi => "Addi"
  | .slti => "Slti"
  | .sltiu => "Sltiu"
  | .xori => "Xori"
  | .ori => "Ori"
  | .andi => "Andi"
  | .slli => "Slli"
  | .srli => "Srli"
  | .srai => "Srai"
  | .add => "Add"
  | .sub => "Sub"
  | .sll => "Sll"
  | .slt => "Slt"
  | .sltu => "Sltu"
  | .xor => "Xor"
  | .srl => "Srl"
  | .sra => "Sra"
  | .or => "Or"
  | .and => "And"
  | .mul => "Mul"
  | .mulh => "Mulh"
  | .mulhsu => "Mulhsu"
  | .mulhu => "Mulhu"
  | .div => "Div"
  | .divu => "Divu"
  | .rem => "Rem"
  | .remu => "Remu"

/-- The opcode with a name. -/
def ofName? (s : String) : Option Opcode :=
  all.find? (·.name == s)

/-- The layout of an instruction. -/
def format : Opcode → Format
  | .lui | .auipc => .U
  | .jal => .J
  | .beq | .bne | .blt | .bge | .bltu | .bgeu => .B
  | .lb | .lh | .lw | .lbu | .lhu => .I
  | .sb | .sh | .sw => .S
  | .addi | .slti | .sltiu | .xori | .ori | .andi | .slli | .srli | .srai => .I
  | _ => .R

/-- Whether the opcode belongs to the extension for multiplication and division. -/
def isMultiplication : Opcode → Bool
  | .mul | .mulh | .mulhsu | .mulhu | .div | .divu | .rem | .remu => true
  | _ => false

end Opcode

end RiscvSemantics.Rv32
