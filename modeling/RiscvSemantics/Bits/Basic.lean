import RiscvSemantics.Fault

namespace RiscvSemantics

/-- A bit vector whose width, at most 64, is known only at run time. The value
    has no bits beyond the width, so equal vectors are equal in width and value. -/
structure Bits where
  width : Nat
  value : BitVec width
  width_le : width ≤ 64
deriving DecidableEq

namespace Bits

/-- The vector of a given width that holds a number modulo `2 ^ width`. -/
def ofNat (width n : Nat) : Except Fault Bits :=
  if h : width ≤ 64 then .ok ⟨width, BitVec.ofNat width n, h⟩ else .error .vectorTooWide

/-- As `ofNat`, for a number that may be negative. -/
def ofInt (width : Nat) (i : Int) : Except Fault Bits :=
  if h : width ≤ 64 then .ok ⟨width, BitVec.ofInt width i, h⟩ else .error .vectorTooWide

def zero (width : Nat) : Except Fault Bits :=
  ofNat width 0

def allOnes (width : Nat) : Except Fault Bits :=
  if h : width ≤ 64 then .ok ⟨width, BitVec.allOnes width, h⟩ else .error .vectorTooWide

/-- One bit: set for `true`. -/
def ofBool (b : Bool) : Bits :=
  ⟨1, BitVec.ofBool b, by decide⟩

/-- One byte. -/
def ofByte (b : BitVec 8) : Bits :=
  ⟨8, b, by decide⟩

/-- The value as a number below `2 ^ width`. -/
def toNat (a : Bits) : Nat :=
  a.value.toNat

/-- The value in two's complement: the top bit counts negatively. -/
def toInt (a : Bits) : Int :=
  a.value.toInt

/-- Whether bit `i` is set, bit 0 being the least significant. There are no set
    bits at or beyond the width. -/
def bit (a : Bits) (i : Nat) : Bool :=
  a.value.getLsbD i

def isZero (a : Bits) : Bool :=
  a.toNat == 0

/-- How many bits are set. -/
def popCount (a : Bits) : Nat :=
  (List.range a.width).countP a.bit

@[simp] theorem toNat_mk {w : Nat} (v : BitVec w) (h : w ≤ 64) : (mk w v h).toNat = v.toNat := rfl

@[simp] theorem toInt_mk {w : Nat} (v : BitVec w) (h : w ≤ 64) : (mk w v h).toInt = v.toInt := rfl

@[simp] theorem bit_mk {w : Nat} (v : BitVec w) (h : w ≤ 64) (i : Nat) :
    (mk w v h).bit i = v.getLsbD i := rfl

@[ext] theorem ext {a b : Bits} (hwidth : a.width = b.width) (hvalue : a.toNat = b.toNat) : a = b := by
  obtain ⟨w, v, hw⟩ := a
  obtain ⟨w', v', hw'⟩ := b
  obtain rfl : w = w' := hwidth
  obtain rfl : v = v' := BitVec.eq_of_toNat_eq hvalue
  rfl

end Bits

end RiscvSemantics
