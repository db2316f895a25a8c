namespace RiscvSemantics.Text

/-- A positive number `mantissa * 2 ^ exponent` together with the numbers that round
    to it. All are counted in quarters of a unit of the mantissa. The ends count
    when the mantissa is even. -/
structure Rounding where
  low : Nat
  value : Nat
  high : Nat
  closed : Bool
  exponent : Int

namespace Rounding

/-- Numbers with 53 bits and a least exponent: below a power of two the neighbours
    are twice as close. -/
def ofParts (mantissa : Nat) (exponent : Int) (isBoundary : Bool) : Rounding :=
  { low := if isBoundary then 4 * mantissa - 1 else 4 * mantissa - 2
    value := 4 * mantissa
    high := 4 * mantissa + 2
    closed := mantissa % 2 == 0
    exponent := exponent - 2 }

/-- A number of quarters and a multiple of `10 ^ k` on one scale. -/
def scaled (r : Rounding) (k : Int) (quarters multiple : Nat) : Nat × Nat :=
  (quarters <<< r.exponent.toNat * Nat.pow 10 (-k).toNat,
    multiple <<< (-r.exponent).toNat * Nat.pow 10 k.toNat)

/-- Whether `multiple * 10 ^ k` rounds to the number. -/
def contains (r : Rounding) (k : Int) (multiple : Nat) : Bool :=
  let (low, below) := r.scaled k r.low multiple
  let (high, above) := r.scaled k r.high multiple
  if r.closed then low ≤ below && above ≤ high else low < below && above < high

/-- The multiple of `10 ^ k` that rounds to the number, the nearer one if there are
    two, and the even one if both are equally near. -/
def onGrid? (r : Rounding) (k : Int) : Option Nat :=
  let (value, unit) := r.scaled k r.value 1
  let floor := value / unit
  let candidates := [floor, floor + 1].filter fun c => c ≠ 0 && r.contains k c
  match candidates with
  | [a, b] =>
    let middle := (a + b) * unit
    some (if 2 * value < middle ∨ 2 * value = middle ∧ a % 2 = 0 then a else b)
  | [a] => some a
  | _ => none

/-- The fewest digits that round to the number, with the power of ten that they
    count: the coarsest decimal grid that has a point among them. -/
def shortest (r : Rounding) : Nat × Int :=
  let grids := (List.range 660).map fun (i : Nat) => (310 : Int) - i
  (grids.findSome? fun k => (r.onGrid? k).map fun c => (c, k)).getD (0, 0)

end Rounding

/-- A number as digits before a power of ten. Between 0.00001 and 10 to the 16th it
    is written out, with at least one digit behind the point, else with an exponent,
    which always has a sign. -/
def decimalText (digits : List Char) (k : Int) : String :=
  let length := digits.length
  let point := length + k
  let zeros (n : Int) := List.replicate n.toNat '0'
  if 0 ≤ k ∧ point ≤ 16 then String.ofList (digits ++ zeros k) ++ ".0"
  else if 0 < point ∧ point ≤ 16 then
    String.ofList (digits.take point.toNat ++ '.' :: digits.drop point.toNat)
  else if -5 < point ∧ point ≤ 0 then "0." ++ String.ofList (zeros (-point) ++ digits)
  else
    let fraction := if length = 1 then [] else '.' :: digits.drop 1
    let mark := if point < 0 then "e" else "e+"
    String.ofList (digits.take 1 ++ fraction) ++ mark ++ toString (point - 1)

/-- The shortest text that reads back as a finite number in double precision. -/
def floatText (x : Float) : String :=
  let bits := x.toBits.toBitVec
  let sign := if bits.msb then "-" else ""
  let biased := (bits.extractLsb' 52 11).toNat
  let fraction := bits.extractLsb' 0 52
  if biased = 0 ∧ fraction = 0 then sign ++ "0.0"
  else
    let rounding :=
      if biased = 0 then Rounding.ofParts fraction.toNat (-1074) false
      else
        Rounding.ofParts (1#1 ++ fraction).toNat ((biased : Int) - 1075)
          (fraction == 0 && biased != 1)
    let (digits, k) := rounding.shortest
    sign ++ decimalText (Nat.toDigits 10 digits) k

end RiscvSemantics.Text
