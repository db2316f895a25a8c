import RiscvSemantics.Bits.Arithmetic
import RiscvSemantics.Bits.Shift

namespace RiscvSemantics

/-- The operators with two operands. -/
inductive BinaryOp where
  | and | or | xor
  | add | sub
  | mul | mulHighSigned | mulHighUnsigned | mulHighSignedUnsigned
  | divUnsigned | divSigned | remUnsigned | remSigned
  | shiftLeft | shiftRight | shiftRightSigned | rotate
  | equal | lessUnsigned | lessSigned
deriving DecidableEq

namespace BinaryOp

def all : List BinaryOp :=
  [.and, .or, .xor, .add, .sub, .mul, .mulHighSigned, .mulHighUnsigned, .mulHighSignedUnsigned,
    .divUnsigned, .divSigned, .remUnsigned, .remSigned, .shiftLeft, .shiftRight, .shiftRightSigned,
    .rotate, .equal, .lessUnsigned, .lessSigned]

/-- Shifts and rotations take an amount of any width; every other operator wants
    two operands of one width. -/
def needsEqualWidths : BinaryOp → Bool
  | .shiftLeft | .shiftRight | .shiftRightSigned | .rotate => false
  | _ => true

/-- Applies an operator. The amount of a shift or rotation is unsigned. -/
def apply : BinaryOp → Bits → Bits → Except Fault Bits
  | .and, a, b => a.and b
  | .or, a, b => a.or b
  | .xor, a, b => a.xor b
  | .add, a, b => a.add b
  | .sub, a, b => a.sub b
  | .mul, a, b => a.mul b
  | .mulHighSigned, a, b => a.mulHighSigned b
  | .mulHighUnsigned, a, b => a.mulHighUnsigned b
  | .mulHighSignedUnsigned, a, b => a.mulHighSignedUnsigned b
  | .divUnsigned, a, b => a.divUnsigned b
  | .divSigned, a, b => a.divSigned b
  | .remUnsigned, a, b => a.remUnsigned b
  | .remSigned, a, b => a.remSigned b
  | .shiftLeft, a, b => .ok (a.shiftLeft b.toNat)
  | .shiftRight, a, b => .ok (a.shiftRight b.toNat)
  | .shiftRightSigned, a, b => .ok (a.shiftRightSigned b.toNat)
  | .rotate, a, b => .ok (a.rotate b.toNat)
  | .equal, a, b => a.equal b
  | .lessUnsigned, a, b => a.lessUnsigned b
  | .lessSigned, a, b => a.lessSigned b

end BinaryOp

/-- The operators with one operand. -/
inductive UnaryOp where
  | not | neg
deriving DecidableEq

def UnaryOp.apply : UnaryOp → Bits → Bits
  | .not, a => a.not
  | .neg, a => a.neg

end RiscvSemantics
