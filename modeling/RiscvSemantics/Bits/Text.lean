import RiscvSemantics.Bits.Basic
import RiscvSemantics.Text.Numeral

namespace RiscvSemantics.Bits

/-- How many base 16 digits hold every value of a width; one for width zero. -/
def hexPlaces (width : Nat) : Nat :=
  max 1 ((width + 3) / 4)

/-- All digits of the value, then the width: `0x0A:8`. -/
def display (a : Bits) : String :=
  "0x" ++ Text.hexUpper (hexPlaces a.width) a.toNat ++ ":" ++ toString a.width

/-- The text shown where a vector appears inside other values. -/
def debugText (a : Bits) : String :=
  "BitVector(" ++ a.display ++ ")"

/-- The value alone in base 16, without leading zeros. -/
def hexLower (a : Bits) : String :=
  Text.hex 1 a.toNat

def hexUpper (a : Bits) : String :=
  Text.hexUpper 1 a.toNat

/-- As `hexLower`, behind the mark `0x`. -/
def hexMarked (a : Bits) : String :=
  Text.marked 1 a.toNat

/-- As `hexLower`, padded with zeros to a total length. -/
def hexPadded (total : Nat) (a : Bits) : String :=
  Text.hex total a.toNat

/-- As `hexUpper`, behind the mark `0x`, padded with zeros to a total length that
    counts the mark. -/
def hexUpperMarkedPadded (total : Nat) (a : Bits) : String :=
  "0x" ++ Text.hexUpper (total - 2) a.toNat

end RiscvSemantics.Bits
