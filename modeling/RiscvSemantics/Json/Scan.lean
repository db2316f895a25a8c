import RiscvSemantics.Json.Error

namespace RiscvSemantics.Json

/-- The first byte of what is left, if anything is. -/
def peek : Reader (Option UInt8) := do
  pure (← get).head?

/-- Drops the first byte. -/
def advance : Reader Unit :=
  modify List.tail

def isSpace (b : UInt8) : Bool :=
  b == 0x20 || b == 0x0a || b == 0x09 || b == 0x0d

def isDigit (b : UInt8) : Bool :=
  0x30 ≤ b && b ≤ 0x39

def digitOf (b : UInt8) : Nat :=
  b.toNat - 0x30

/-- Drops white space and looks at what follows. -/
def peekToken : Reader (Option UInt8) := do
  modify (·.dropWhile isSpace)
  peek

/-- As `peekToken`, where something has to follow. -/
def requireToken : Reader UInt8 := do
  match ← peekToken with
  | some b => pure b
  | none => throw .truncated

/-- Reads the given characters. -/
def expect : List Char → Reader Unit
  | [] => pure ()
  | c :: rest => do
    match ← peek with
    | none => throw .truncated
    | some b =>
      advance
      if b == c.toUInt8 then expect rest else throw .malformed

/-- Reads all digits that follow. -/
def takeDigits : Reader (List UInt8) :=
  modifyGet (·.span isDigit)

end RiscvSemantics.Json
