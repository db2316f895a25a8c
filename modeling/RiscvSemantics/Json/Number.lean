import RiscvSemantics.Json.Scan

namespace RiscvSemantics.Json

/-- A number as it was written: whole numbers that fit 64 bits stay exact. -/
inductive Number where
  | unsigned (n : Nat)
  | negative (i : Int)
  | float (x : Float)

def Number.found : Number → Found
  | .unsigned n => .unsigned n
  | .negative i => .negative i
  | .float x => .float x

/-- Appends decimal digits to a number for as long as it stays below `2 ^ 64`. Gives
    the number, how many digits were taken and the digits left over. -/
def absorb (n : Nat) : List UInt8 → Nat × Nat × List UInt8
  | [] => (n, 0, [])
  | b :: rest =>
    let next := n * 10 + digitOf b
    if next < UInt64.size then
      let (m, taken, left) := absorb next rest
      (m, taken + 1, left)
    else (n, 0, b :: rest)

/-- `x * 10 ^ exponent`, in steps of at most 308 powers of ten; none if it is too
    large. -/
def scale (x : Float) (exponent : Int) : Option Float :=
  let power (k : Nat) := Float.ofScientific 1 false k
  if 0 ≤ exponent then
    if exponent ≤ 308 then
      let y := x * power exponent.toNat
      if y.isInf then none else some y
    else if x == 0 then some x else none
  else if -308 ≤ exponent then some (x / power exponent.natAbs)
  else if x == 0 then some x
  else scale (x / power 308) (exponent + 308)
termination_by (-exponent).toNat
decreasing_by omega

/-- A number from its sign, digits and power of ten. -/
def floatOf (positive : Bool) (digits : Nat) (exponent : Int) : Reader Number :=
  match scale (UInt64.ofNat digits).toFloat exponent with
  | some x => pure (.float (if positive then x else -x))
  | none => throw .malformed

/-- Reads a power of ten behind its letter. -/
def readExponent (positive : Bool) (digits : Nat) (start : Int) : Reader Number := do
  advance
  let sign ← peek
  let up := sign != some '-'.toUInt8
  if sign == some '+'.toUInt8 || sign == some '-'.toUInt8 then advance
  match ← peek with
  | none => throw .truncated
  | some b => if !isDigit b then throw .malformed
  let written ← takeDigits
  let size := written.foldl (fun n b => n * 10 + digitOf b) 0
  if Int32.maxValue.toInt < size then
    if digits ≠ 0 ∧ up then throw .malformed
    pure (.float (if positive then 0.0 else -0.0))
  else
    let exponent := if up then start + size else start - size
    floatOf positive digits (max Int32.minValue.toInt (min Int32.maxValue.toInt exponent))

/-- Reads a fraction behind its point, and the exponent if one follows. Digits that
    do not fit 64 bits do not count. -/
def readFraction (positive : Bool) (digits : Nat) (start : Int) : Reader Number := do
  advance
  let written ← takeDigits
  if written.isEmpty then
    match ← peek with
    | none => throw .truncated
    | some _ => throw .malformed
  let (digits, taken, _) := absorb digits written
  let exponent := start - taken
  let next ← peek
  if next == some 'e'.toUInt8 || next == some 'E'.toUInt8 then readExponent positive digits exponent
  else floatOf positive digits exponent

/-- What a whole number without fraction and exponent is. A negative zero, and what
    lies below the least signed number, are kept in floating point. -/
def wholeNumber (positive : Bool) (n : Nat) : Number :=
  if positive then .unsigned n
  else if 0 < n ∧ Int64.minValue.toInt ≤ -n then .negative (-n)
  else .float (-(UInt64.ofNat n).toFloat)

/-- Reads a number behind its sign. -/
def readNumber (positive : Bool) : Reader Number := do
  match ← peek with
  | none => throw .truncated
  | some b =>
    if !isDigit b then throw .malformed
    let written ← takeDigits
    if b == '0'.toUInt8 && written.length > 1 then throw .malformed
    let (digits, _, left) := absorb 0 written
    let next ← peek
    if next == some '.'.toUInt8 then readFraction positive digits left.length
    else if next == some 'e'.toUInt8 || next == some 'E'.toUInt8 then
      readExponent positive digits left.length
    else if left.isEmpty then pure (wholeNumber positive digits)
    else floatOf positive digits left.length

/-- Drops a number behind its sign. -/
def skipNumber : Reader Unit := do
  let written ← takeDigits
  match written with
  | [] => throw .malformed
  | b :: others =>
    if b == '0'.toUInt8 && !others.isEmpty then throw .malformed
    if (← peek) == some '.'.toUInt8 then
      advance
      if (← takeDigits).isEmpty then throw .malformed
    let next ← peek
    if next == some 'e'.toUInt8 || next == some 'E'.toUInt8 then
      advance
      let sign ← peek
      if sign == some '+'.toUInt8 || sign == some '-'.toUInt8 then advance
      if (← takeDigits).isEmpty then throw .malformed

end RiscvSemantics.Json
