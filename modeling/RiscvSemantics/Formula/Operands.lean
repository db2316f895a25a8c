import RiscvSemantics.Bits.Basic

namespace RiscvSemantics

/-- The field values of one decoded instruction, one for each field of its
    layout. -/
structure Operands where
  format : Format
  values : List Bits
  length_values : values.length = format.fields.length
deriving DecidableEq

namespace Operands

/-- Pairs a layout with values; there must be as many as the layout has fields. -/
def ofValues (format : Format) (values : List Bits) : Except Fault Operands :=
  if h : values.length = format.fields.length then .ok ⟨format, values, h⟩
  else .error (.operandCount format)

/-- The value of a field, if the layout carries it. -/
def get? (operands : Operands) (field : Field) : Option Bits :=
  (operands.format.position? field).bind (operands.values[·]?)

end Operands

end RiscvSemantics
