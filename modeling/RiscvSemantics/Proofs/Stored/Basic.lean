import RiscvSemantics.Bits.Basic
import RiscvSemantics.Proofs.Stored.Checked

namespace RiscvSemantics

/-- A vector as it lies in machine words: the width is a number beside the bits, and nothing keeps
    the word free of bits beyond the width. -/
structure Stored where
  width : BitVec 32
  bits : BitVec 64
deriving DecidableEq

namespace Stored

/-- The width is one that fits the word, and there are no bits beyond it. -/
structure Canonical (s : Stored) : Prop where
  width_le : s.width.toNat ≤ 64
  bits_lt : s.bits.toNat < 2 ^ s.width.toNat

/-- The low `width` bits set. -/
def mask (width : BitVec 32) : Checked (BitVec 64) :=
  if 64 ≤ width.toNat then .ok (BitVec.allOnes 64)
  else do
    let above ← Checked.shiftLeft 1#64 width.toNat
    Checked.sub above 1#64

/-- Every vector is made here. Bits beyond the width are dropped. -/
def new (width : BitVec 32) (value : BitVec 64) : Checked Stored :=
  if width.toNat ≤ 64 then do
    let low ← mask width
    return ⟨width, value &&& low⟩
  else
    .error (.fault .vectorTooWide)

/-- The word of a signed number is taken as it is. -/
def ofSigned (width : BitVec 32) (value : BitVec 64) : Checked Stored :=
  new width value

def zero (width : BitVec 32) : Checked Stored :=
  new width 0#64

def allOnes (width : BitVec 32) : Checked Stored :=
  new width (BitVec.allOnes 64)

def ofBool (b : Bool) : Checked Stored :=
  new 1#32 ((BitVec.ofBool b).setWidth 64)

/-- The value in two's complement: the sign bit is moved to the top of the word and back. -/
def signed (s : Stored) : Checked (BitVec 64) :=
  if s.width = 0#32 then .ok 0#64
  else do
    let spare ← Checked.sub 64#32 s.width
    let raised ← Checked.shiftLeft s.bits spare.toNat
    Checked.shiftRightSigned raised spare.toNat

def bit (s : Stored) (i : BitVec 32) : Checked Bool :=
  if i.toNat < s.width.toNat then do
    let lowered ← Checked.shiftRight s.bits i.toNat
    return lowered &&& 1#64 == 1#64
  else
    .ok false

/-- The words of a vector. -/
def of (a : Bits) : Stored :=
  ⟨BitVec.ofNat 32 a.width, a.value.setWidth 64⟩

/-- What is to be expected of words where vectors give a result or a fault. -/
def embed : Except Fault Bits → Checked Stored
  | .ok a => .ok (of a)
  | .error fault => .error (.fault fault)

section Words

variable {w : Nat} (hw : w ≤ 64)
include hw

theorem toNat_width : (BitVec.ofNat 32 w).toNat = w := by
  rw [BitVec.toNat_ofNat, Nat.mod_eq_of_lt]
  omega

theorem width_eq_zero : BitVec.ofNat 32 w = 0#32 ↔ w = 0 := by
  constructor
  · intro h
    have hzero := congrArg BitVec.toNat h
    rwa [toNat_width hw] at hzero
  · rintro rfl
    rfl

theorem mask_width : mask (BitVec.ofNat 32 w) = .ok ((BitVec.allOnes w).setWidth 64) := by
  rw [mask, toNat_width hw]
  split
  case isTrue h =>
    obtain rfl : w = 64 := by omega
    rw [BitVec.setWidth_eq]
  case isFalse h =>
    have hpow : 2 ^ w < 2 ^ 64 := Nat.pow_lt_pow_right (by omega) (by omega)
    have hpos : 0 < 2 ^ w := Nat.two_pow_pos w
    have hone : (1#64).toNat = 1 := rfl
    have habove : (1#64 <<< w).toNat = 2 ^ w := by
      rw [BitVec.toNat_shiftLeft, hone, Nat.shiftLeft_eq]
      omega
    have hle : 1#64 ≤ 1#64 <<< w := by
      rw [BitVec.le_def, habove, hone]
      omega
    have hmask : 1#64 <<< w - 1#64 = (BitVec.allOnes w).setWidth 64 := by
      apply BitVec.eq_of_toNat_eq
      rw [BitVec.toNat_sub_of_le hle, habove, hone, BitVec.toNat_setWidth_of_le hw, BitVec.toNat_allOnes]
    rw [Checked.shiftLeft_ok _ (by omega), Checked.ok_bind, Checked.sub_ok (BitVec.le_def.mp hle), hmask]

theorem setWidth_word (x : BitVec w) : (x.setWidth 64).setWidth w = x := by
  rw [BitVec.setWidth_setWidth_of_le x hw, BitVec.setWidth_eq]

/-- What is left of a word is its low bits. -/
theorem new_width (value : BitVec 64) :
    new (BitVec.ofNat 32 w) value = .ok (of ⟨w, value.setWidth w, hw⟩) := by
  have hlow : value &&& (BitVec.allOnes w).setWidth 64 = (value.setWidth w).setWidth 64 := by
    apply BitVec.eq_of_getLsbD_eq
    intro i hi
    simp only [BitVec.getLsbD_and, BitVec.getLsbD_setWidth, BitVec.getLsbD_allOnes]
    rw [decide_eq_true hi, Bool.true_and, Bool.true_and, Bool.and_comm]
  rw [new, toNat_width hw, if_pos hw, mask_width hw, Checked.ok_bind, hlow]
  rfl

theorem setWidth_allOnes : (BitVec.allOnes 64).setWidth w = BitVec.allOnes w := by
  apply BitVec.eq_of_getLsbD_eq
  intro i hi
  rw [BitVec.getLsbD_setWidth, BitVec.getLsbD_allOnes, BitVec.getLsbD_allOnes, decide_eq_true hi,
    decide_eq_true (by omega), Bool.true_and]

theorem allOnes_width : allOnes (BitVec.ofNat 32 w) = .ok (of ⟨w, BitVec.allOnes w, hw⟩) := by
  rw [allOnes, new_width hw, setWidth_allOnes hw]

/-- Bit `i` of the word comes from bit `i` of the vector, or from its top bit. -/
theorem sshiftRight_shiftLeft (hpos : w ≠ 0) (x : BitVec w) :
    (x.setWidth 64 <<< (64 - w)).sshiftRight (64 - w) = x.signExtend 64 := by
  have htop : (x.setWidth 64 <<< (64 - w)).msb = x.msb := by
    rw [BitVec.msb_eq_getLsbD_last, BitVec.msb_eq_getLsbD_last, BitVec.getLsbD_shiftLeft,
      BitVec.getLsbD_setWidth, show 64 - 1 - (64 - w) = w - 1 by omega]
    have hinside : w - 1 < 64 := by omega
    have hmoved : ¬ 64 - 1 < 64 - w := by omega
    simp [hinside, hmoved]
  apply BitVec.eq_of_getLsbD_eq
  intro i hi
  have hword : ¬ 64 ≤ i := Nat.not_le.mpr hi
  rw [BitVec.getLsbD_sshiftRight, BitVec.getLsbD_signExtend, htop, BitVec.getLsbD_shiftLeft,
    BitVec.getLsbD_setWidth]
  by_cases hlt : i < w
  · have hinside : 64 - w + i < 64 := by omega
    have hmoved : 64 - w + i - (64 - w) = i := by omega
    simp [hlt, hi, hword, hinside, hmoved]
  · have houtside : ¬ 64 - w + i < 64 := by omega
    simp [hlt, hi, hword, houtside]

end Words

theorem new_of_le {width : BitVec 32} (h : width.toNat ≤ 64) (value : BitVec 64) :
    new width value = .ok (of ⟨width.toNat, value.setWidth width.toNat, h⟩) := by
  have hmade := new_width h value
  rwa [BitVec.ofNat_toNat, BitVec.setWidth_eq] at hmade

theorem new_of_lt {width : BitVec 32} (h : 64 < width.toNat) (value : BitVec 64) :
    new width value = .error (.fault .vectorTooWide) :=
  if_neg (Nat.not_le.mpr h)

/-- Words and vectors ask the same of a width. -/
theorem new_eq_embed {width : BitVec 32} {value : BitVec 64} {x : BitVec width.toNat}
    (hx : width.toNat ≤ 64 → value.setWidth width.toNat = x) :
    new width value =
      embed (if h : width.toNat ≤ 64 then .ok ⟨width.toNat, x, h⟩ else .error .vectorTooWide) := by
  split
  case isTrue h =>
    rw [new_of_le h, hx h]
    rfl
  case isFalse h => exact new_of_lt (Nat.not_le.mp h) value

theorem ofBool_eq (b : Bool) : ofBool b = .ok (of (Bits.ofBool b)) := by
  have hmade := new_width (by decide : 1 ≤ 64) ((BitVec.ofBool b).setWidth 64)
  rwa [setWidth_word (by decide)] at hmade

theorem signed_of (a : Bits) : (of a).signed = .ok (a.value.signExtend 64) := by
  obtain ⟨w, x, hw⟩ := a
  rw [signed]
  split
  case isTrue h =>
    -- there is no sign bit, and the spare bits would be the whole word
    obtain rfl : w = 0 := (width_eq_zero hw).mp h
    obtain rfl : x = 0#0 := BitVec.of_length_zero
    rfl
  case isFalse h =>
    have hpos : w ≠ 0 := mt (width_eq_zero hw).mpr h
    have hfits : BitVec.ofNat 32 w ≤ 64#32 := by
      rw [BitVec.le_def, toNat_width hw]
      exact hw
    have hspare : (64#32 - BitVec.ofNat 32 w).toNat = 64 - w := by
      rw [BitVec.toNat_sub_of_le hfits, toNat_width hw]
      rfl
    rw [of, Checked.sub_ok (BitVec.le_def.mp hfits), Checked.ok_bind, hspare,
      Checked.shiftLeft_ok _ (by omega), Checked.ok_bind, Checked.shiftRightSigned_ok _ (by omega),
      sshiftRight_shiftLeft hw hpos]

theorem bit_of (a : Bits) (i : BitVec 32) : (of a).bit i = .ok (a.bit i.toNat) := by
  obtain ⟨w, value, hw⟩ := a
  rw [bit, of, toNat_width hw]
  split
  case isTrue h =>
    have hlow : (value.setWidth 64 >>> i.toNat &&& 1#64 == 1#64) = value.getLsbD i.toNat := by
      have hin : (value.setWidth 64).getLsbD i.toNat = value.getLsbD i.toNat := by
        rw [BitVec.getLsbD_setWidth, decide_eq_true (by omega), Bool.true_and]
      rw [BitVec.and_one_eq_setWidth_ofBool_getLsbD, BitVec.getLsbD_ushiftRight, Nat.add_zero, hin]
      cases value.getLsbD i.toNat <;> rfl
    rw [Checked.shiftRight_ok _ (by omega), Checked.ok_bind, hlow]
    rfl
  case isFalse h =>
    rw [Bits.bit_mk, BitVec.getLsbD_of_ge _ _ (by omega)]

/-- Words that hold a vector, read in any way. -/
structure Holds (s : Stored) (a : Bits) : Prop where
  canonical : s.Canonical
  width : s.width.toNat = a.width
  unsigned : s.bits.toNat = a.toNat
  signed : ∃ value, s.signed = .ok value ∧ value.toInt = a.toInt
  bit : ∀ i, s.bit i = .ok (a.bit i.toNat)

theorem holds_of (a : Bits) : (of a).Holds a := by
  have hwidth : (of a).width.toNat = a.width := toNat_width a.width_le
  have hunsigned : (of a).bits.toNat = a.toNat := BitVec.toNat_setWidth_of_le a.width_le
  constructor
  case canonical =>
    constructor
    · rw [hwidth]
      exact a.width_le
    · rw [hwidth, hunsigned]
      exact a.value.isLt
  case width => exact hwidth
  case unsigned => exact hunsigned
  case signed => exact ⟨_, signed_of a, BitVec.toInt_signExtend_of_le a.width_le⟩
  case bit => exact bit_of a

/-- Words and vectors come to one and the same vector. -/
structure Yields (words : Checked Stored) (vectors : Except Fault Bits) (a : Bits) : Prop where
  words : words = .ok (of a)
  vectors : vectors = .ok a

theorem Yields.of_embed {words : Checked Stored} {vectors : Except Fault Bits} {a : Bits}
    (hwords : words = embed vectors) (hvectors : vectors = .ok a) : Yields words vectors a := by
  subst hwords hvectors
  exact ⟨rfl, rfl⟩

theorem Yields.bind {words : Checked Stored} {vectors : Except Fault Bits} {a b : Bits}
    {f : Stored → Checked Stored} {g : Bits → Except Fault Bits} (hfirst : Yields words vectors a)
    (hrest : Yields (f (of a)) (g a) b) : Yields (words >>= f) (vectors >>= g) b := by
  obtain ⟨rfl, rfl⟩ := hfirst
  exact hrest

end Stored
end RiscvSemantics
