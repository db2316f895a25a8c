namespace RiscvSemantics.Text

/-- The digits of a number, most significant first, with leading zeros up to
    `places` of them. -/
def digits (base places n : Nat) : List Char :=
  let written := Nat.toDigits base n
  List.replicate (places - written.length) '0' ++ written

/-- The number in base 16 with lower-case digits, at least `places` of them. -/
def hex (places n : Nat) : String :=
  String.ofList (digits 16 places n)

/-- As `hex`, with upper-case digits. -/
def hexUpper (places n : Nat) : String :=
  String.ofList ((digits 16 places n).map Char.toUpper)

/-- A number in base 16 behind the mark `0x`, at least `places` digits. -/
def marked (places n : Nat) : String :=
  "0x" ++ hex places n

/-- An instruction word or a 32-bit register: eight digits behind the mark. -/
def word (n : Nat) : String :=
  marked 8 n

/-- Why a text is no numeral. -/
inductive NumeralError where
  | empty
  | invalidDigit
  | tooLarge
deriving DecidableEq

def NumeralError.message : NumeralError → String
  | .empty => "cannot parse integer from empty string"
  | .invalidDigit => "invalid digit found in string"
  | .tooLarge => "number too large to fit in target type"

/-- The value of an ASCII digit below the base; letters of either case count from
    ten. -/
def digitValue? (base : Nat) (c : Char) : Option Nat :=
  let value? :=
    if '0' ≤ c ∧ c ≤ '9' then some (c.toNat - '0'.toNat)
    else if 'a' ≤ c ∧ c ≤ 'z' then some (c.toNat - 'a'.toNat + 10)
    else if 'A' ≤ c ∧ c ≤ 'Z' then some (c.toNat - 'A'.toNat + 10)
    else none
  value?.filter (· < base)

/-- Reads digits from left to right onto `acc`. The first character that is no
    digit, or that takes the number to `limit` or beyond, decides the error. -/
def readDigits (base limit : Nat) : (acc : Nat) → List Char → Except NumeralError Nat
  | acc, [] => .ok acc
  | acc, c :: rest =>
    match digitValue? base c with
    | none => .error .invalidDigit
    | some d =>
      if acc * base + d < limit then readDigits base limit (acc * base + d) rest
      else .error .tooLarge

/-- Reads a numeral below `limit`: digits, behind one plus sign at most. -/
def readNumeral (base limit : Nat) : List Char → Except NumeralError Nat
  | [] => .error .empty
  | ['+'] => .error .invalidDigit
  | '+' :: rest => readDigits base limit 0 rest
  | cs => readDigits base limit 0 cs

end RiscvSemantics.Text
