namespace RiscvSemantics

/-- The layouts of a RISC-V instruction word. -/
inductive Format where
  | R | I | S | B | U | J
deriving DecidableEq

/-- The named parts of a decoded instruction. -/
inductive Field where
  | rd | rs1 | rs2 | imm
deriving DecidableEq

namespace Field

def all : List Field := [.rd, .rs1, .rs2, .imm]

def name : Field → String
  | .rd => "Rd"
  | .rs1 => "Rs1"
  | .rs2 => "Rs2"
  | .imm => "Imm"

end Field

namespace Format

def all : List Format := [.R, .I, .S, .B, .U, .J]

def name : Format → String
  | .R => "R"
  | .I => "I"
  | .S => "S"
  | .B => "B"
  | .U => "U"
  | .J => "J"

/-- The name used in sentences: an "R-type" instruction. -/
def title (format : Format) : String :=
  format.name ++ "-type"

/-- The fields that a layout carries, in the order in which they are written. -/
def fields : Format → List Field
  | .R => [.rd, .rs1, .rs2]
  | .I => [.rd, .rs1, .imm]
  | .S | .B => [.rs1, .rs2, .imm]
  | .U | .J => [.rd, .imm]

/-- Where a layout carries a field, if it does. -/
def position? (format : Format) (field : Field) : Option Nat :=
  format.fields.idxOf? field

end Format

end RiscvSemantics
