import RiscvSemantics.Formula.Operands
import RiscvSemantics.Formula.Operator

namespace RiscvSemantics

/-- A computation of one vector from the operands of an instruction and the state
    of a machine. The parts of an expression are evaluated from left to right. -/
inductive Expr where
  | literal (value : Bits)
  /-- A field of an instruction of the given layout. -/
  | operand (format : Format) (field : Field)
  | pc
  /-- The register width, as a value of that width. -/
  | xlen
  /-- The length of the instruction in bytes, as a value of register width. -/
  | instructionBytes
  /-- The register with the index that `id` computes. -/
  | register (id : Expr)
  /-- The byte at the address that `address` computes. -/
  | memory (address : Expr)
  | binary (op : BinaryOp) (left right : Expr)
  | unary (op : UnaryOp) (operand : Expr)
  | zeroExtend (width : Nat) (operand : Expr)
  | signExtend (width : Nat) (operand : Expr)
  /-- The `width` bits of `source` from position `start` up. -/
  | extract (start width : Nat) (source : Expr)
  | concat (high low : Expr)
  /-- `yes` when the condition is 1, else `no`. All three are evaluated. -/
  | select (condition yes no : Expr)
deriving DecidableEq

namespace Expr

def and (a b : Expr) : Expr := .binary .and a b

def or (a b : Expr) : Expr := .binary .or a b

def xor (a b : Expr) : Expr := .binary .xor a b

def add (a b : Expr) : Expr := .binary .add a b

def sub (a b : Expr) : Expr := .binary .sub a b

def shiftLeft (a amount : Expr) : Expr := .binary .shiftLeft a amount

def shiftRight (a amount : Expr) : Expr := .binary .shiftRight a amount

def shiftRightSigned (a amount : Expr) : Expr := .binary .shiftRightSigned a amount

def equal (a b : Expr) : Expr := .binary .equal a b

def lessUnsigned (a b : Expr) : Expr := .binary .lessUnsigned a b

def lessSigned (a b : Expr) : Expr := .binary .lessSigned a b

def not (a : Expr) : Expr := .unary .not a

end Expr

/-- One effect of an instruction that raises causes of type `ε`. -/
inductive Statement (ε : Type) where
  | setRegister (id value : Expr)
  /-- Stores one byte. -/
  | setMemory (address value : Expr)
  | setPc (value : Expr)
  /-- Raises a cause when the condition is 1. What follows is executed in either
      case. -/
  | raiseIf (condition : Expr) (cause : ε)
deriving DecidableEq

/-- What an instruction does: its effects in order. -/
structure Formula (ε : Type) where
  statements : List (Statement ε)
deriving DecidableEq

end RiscvSemantics
