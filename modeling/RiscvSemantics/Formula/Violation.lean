import RiscvSemantics.Bits.Basic

namespace RiscvSemantics

/-- The expressions that want two parts of one width, by their names in a report. -/
inductive Junction where
  | binaryOperation | selection
deriving DecidableEq

def Junction.name : Junction → String
  | .binaryOperation => "binary operation"
  | .selection => "select"

/-- The values that have to have a set width, by their names in a report. -/
inductive Role where
  | address | loadedValue | registerValue | storedValue | newPc
deriving DecidableEq

def Role.name : Role → String
  | .address => "address"
  | .loadedValue => "loaded value"
  | .registerValue => "register value"
  | .storedValue => "stored value"
  | .newPc => "new pc"

/-- How a formula and the instruction that it is evaluated for can disagree. A
    violation is never a condition of the machine: decoder and formulas are out of
    step. -/
inductive Violation where
  | operandMismatch (expected : Format) (field : Field) (found : Format)
  | widthMismatch (junction : Junction) (left right : Nat)
  | registerIdWidth (found : Nat)
  | valueWidth (role : Role) (expected found : Nat)
  | widthOverflow (width : Nat)
  | narrowingExtension (width target : Nat)
deriving DecidableEq

namespace Violation

def name : Violation → String
  | .operandMismatch .. => "OperandMismatch"
  | .widthMismatch .. => "WidthMismatch"
  | .registerIdWidth .. => "RegisterIdWidth"
  | .valueWidth .. => "ValueWidth"
  | .widthOverflow .. => "WidthOverflow"
  | .narrowingExtension .. => "NarrowingExtension"

def message : Violation → String
  | .operandMismatch expected field found =>
    s!"formula reads {field.name} of a {expected.title} instruction, " ++
      s!"but a {found.title} instruction was decoded"
  | .widthMismatch junction left right =>
    s!"{junction.name} of a {left}-bit and a {right}-bit value"
  | .registerIdWidth found => s!"register index is {found} bits wide, expected 5"
  | .valueWidth role expected found => s!"{role.name} is {found} bits wide, expected {expected}"
  | .widthOverflow width => s!"result would be {width} bits wide, more than 64"
  | .narrowingExtension width target => s!"cannot extend a {width}-bit value to {target} bits"

/-- The width of a register index. -/
def registerIdBits : Nat := 5

/-- The width of a memory cell. -/
def cellBits : Nat := 8

/-- A value has to have the width that its role asks for. -/
def requireWidth (role : Role) (expected : Nat) (value : Bits) : Except Violation Unit :=
  if value.width = expected then .ok () else .error (.valueWidth role expected value.width)

/-- A register index has to be five bits wide. -/
def requireRegisterId (id : Bits) : Except Violation Unit :=
  if id.width = registerIdBits then .ok () else .error (.registerIdWidth id.width)

/-- Two parts of one expression have to be equally wide. -/
def requireEqualWidths (junction : Junction) (left right : Bits) : Except Violation Unit :=
  if left.width = right.width then .ok ()
  else .error (.widthMismatch junction left.width right.width)

/-- A result has to be a vector. -/
def requireFits (width : Nat) : Except Violation Unit :=
  if width ≤ 64 then .ok () else .error (.widthOverflow width)

/-- An extension has to reach a width that is a vector's and does not narrow. -/
def requireWidening (value : Bits) (target : Nat) : Except Violation Unit := do
  requireFits target
  if target < value.width then .error (.narrowingExtension value.width target) else .ok ()

end Violation

end RiscvSemantics
