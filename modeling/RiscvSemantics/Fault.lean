import RiscvSemantics.Formula.Format

namespace RiscvSemantics

/-- The ways to combine two vectors that want both equally wide. -/
inductive Combination where
  | conjunction | disjunction | exclusion
  | addition | subtraction | multiplication | division | remainder
  | comparison
deriving DecidableEq

def Combination.name : Combination → String
  | .conjunction => "AND"
  | .disjunction => "OR"
  | .exclusion => "XOR"
  | .addition => "addition"
  | .subtraction => "subtraction"
  | .multiplication => "multiplication"
  | .division => "division"
  | .remainder => "remainder"
  | .comparison => "comparison"

/-- A precondition that a caller broke. A fault is never a condition of the
    machine: whoever built the operation got it wrong. -/
inductive Fault where
  | vectorTooWide
  | concatenationTooWide
  | wideningTruncation
  | narrowingZeroExtension
  | narrowingSignExtension
  | unequalWidths (combination : Combination) (left right : Nat)
  | operandCount (format : Format)
  | registerOutOfRange (index : Nat)
  | unsupportedXlen (xlen : Nat)
  | indexOutOfBounds (length index : Nat)
deriving DecidableEq

def Fault.message : Fault → String
  | .vectorTooWide => "BitVector wider than 64 bits"
  | .concatenationTooWide => "concatenation wider than 64 bits"
  | .wideningTruncation => "truncation must not widen"
  | .narrowingZeroExtension => "zero extension must not narrow"
  | .narrowingSignExtension => "sign extension must not narrow"
  | .unequalWidths combination left right =>
    s!"{combination.name} of a {left}-bit and a {right}-bit vector"
  | .operandCount format => s!"wrong number of operands for {format.title}"
  | .registerOutOfRange index => s!"register {index} out of range"
  | .unsupportedXlen xlen => s!"unsupported XLEN {xlen}"
  | .indexOutOfBounds length index =>
    s!"index out of bounds: the len is {length} but the index is {index}"

end RiscvSemantics
