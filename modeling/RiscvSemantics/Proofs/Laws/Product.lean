import Mathlib.Algebra.Order.Ring.Abs
import RiscvSemantics.Proofs.Stored.Arithmetic

namespace RiscvSemantics

namespace Bits

open Stored (of Yields)

section Halves

variable {w : Nat} (x y : BitVec w)

/-- The low half and what is above it are the whole product. -/
theorem ediv_add_toNat (product : Int) :
    product / 2 ^ w * 2 ^ w + (BitVec.ofInt w product).toNat = product := by
  rw [toNat_ofInt]
  exact Int.ediv_mul_add_emod product (2 ^ w)

theorem mul_eq_ofInt_toNat : x * y = BitVec.ofInt w (x.toNat * y.toNat) := by
  rw [BitVec.ofInt_mul, ofInt_toNat, ofInt_toNat]

theorem mul_eq_ofInt_toInt_toNat : x * y = BitVec.ofInt w (x.toInt * y.toNat) := by
  rw [BitVec.ofInt_mul, BitVec.ofInt_toInt, ofInt_toNat]

/-- The high half of a product without a sign fits: both numbers are below `2 ^ w`. -/
theorem toNat_highHalf_mul :
    ((highHalf w (x.toNat * y.toNat)).toNat : Int) = (x.toNat * y.toNat : Int) / 2 ^ w := by
  have hproduct : x.toNat * y.toNat < 2 ^ w * 2 ^ w := Nat.mul_lt_mul'' x.isLt y.isLt
  have hhigh : (x.toNat * y.toNat : Int) < 2 ^ w * 2 ^ w := by exact_mod_cast hproduct
  have hnonneg : 0 ≤ (x.toNat * y.toNat : Int) / 2 ^ w :=
    Int.ediv_nonneg (by positivity) (Int.le_of_lt (two_pow_pos w))
  have hfits : (x.toNat * y.toNat : Int) / 2 ^ w < 2 ^ w := Int.ediv_lt_of_lt_mul (two_pow_pos w) hhigh
  rw [highHalf_eq_ofInt, toNat_ofInt, Int.emod_eq_of_lt hnonneg hfits]

/-- The high half of the product of a signed number and one that is in size below `2 ^ w` fits with
    its sign. -/
theorem toInt_highHalf_mul {factor : Int} (hlow : -2 ^ w < factor) (hhigh : factor < 2 ^ w) :
    (highHalf w (x.toInt * factor)).toInt = x.toInt * factor / 2 ^ w := by
  rcases Nat.eq_zero_or_pos w with rfl | hpos
  · obtain rfl : x = 0#0 := BitVec.of_length_zero
    rw [BitVec.toInt_zero, Int.zero_mul, highHalf_eq_ofInt, Int.zero_ediv, BitVec.ofInt_ofNat,
      BitVec.toInt_zero]
  · have hsize : |x.toInt * factor| < 2 ^ (w - 1) * 2 ^ w := calc
      |x.toInt * factor| = |x.toInt| * |factor| := abs_mul ..
      _ ≤ 2 ^ (w - 1) * |factor| :=
        Int.mul_le_mul_of_nonneg_right (abs_le.mpr ⟨x.le_toInt, Int.le_of_lt BitVec.toInt_lt⟩) (abs_nonneg _)
      _ < 2 ^ (w - 1) * 2 ^ w := Int.mul_lt_mul_of_pos_left (abs_lt.mpr ⟨hlow, hhigh⟩) (two_pow_pos _)
    obtain ⟨hbelow, habove⟩ := abs_lt.mp hsize
    rw [highHalf_eq_ofInt]
    apply BitVec.toInt_ofInt_eq_self hpos
    · apply Int.le_ediv_of_mul_le (two_pow_pos w)
      rw [Int.neg_mul]
      exact Int.le_of_lt hbelow
    · exact Int.ediv_lt_of_lt_mul (two_pow_pos w) habove

/-- The unsigned value and the signed one are in size below `2 ^ w`. -/
theorem toNat_factor : (-2 ^ w : Int) < y.toNat ∧ (y.toNat : Int) < 2 ^ w := by
  have hlt : (y.toNat : Int) < (2 ^ w : Nat) := Int.ofNat_lt.mpr y.isLt
  have hpos := two_pow_pos w
  exact ⟨by omega, hlt⟩

theorem toInt_factor : -2 ^ w < y.toInt ∧ y.toInt < 2 ^ w := by
  have hlow : -2 ^ w ≤ 2 * y.toInt := BitVec.le_two_mul_toInt
  have hhigh : 2 * y.toInt < 2 ^ w := BitVec.two_mul_toInt_lt
  have hpos := two_pow_pos w
  omega

end Halves

/-- The halves of the product of two vectors `a` and `b`, with both factors unsigned, with both
    signed, and with the left one signed. The low half is the same for all. -/
structure Halves (a b low unsigned signed mixed : Bits) : Prop where
  widths : ∀ half ∈ [low, unsigned, signed, mixed], half.width = a.width
  unsigned_eq : (unsigned.toNat * 2 ^ a.width + low.toNat : Int) = a.toNat * b.toNat
  signed_eq : signed.toInt * 2 ^ a.width + low.toNat = a.toInt * b.toInt
  mixed_eq : mixed.toInt * 2 ^ a.width + low.toNat = a.toInt * b.toNat

theorem halves_of {w : Nat} (hw : w ≤ 64) (x y : BitVec w) :
    Halves ⟨w, x, hw⟩ ⟨w, y, hw⟩ ⟨w, x * y, hw⟩ ⟨w, highHalf w (x.toNat * y.toNat), hw⟩
      ⟨w, highHalf w (x.toInt * y.toInt), hw⟩ ⟨w, highHalf w (x.toInt * y.toNat), hw⟩ := by
  constructor
  case widths => simp
  case unsigned_eq =>
    rw [toNat_mk, toNat_highHalf_mul, toNat_mk, mul_eq_ofInt_toNat]
    exact ediv_add_toNat _
  case signed_eq =>
    obtain ⟨hlow, hhigh⟩ := toInt_factor y
    rw [toInt_mk, toInt_highHalf_mul x hlow hhigh, toNat_mk, mul_eq_ofInt]
    exact ediv_add_toNat _
  case mixed_eq =>
    obtain ⟨hlow, hhigh⟩ := toNat_factor y
    rw [toInt_mk, toInt_highHalf_mul x hlow hhigh, toNat_mk, mul_eq_ofInt_toInt_toNat]
    exact ediv_add_toNat _

/-- Multiplying two vectors of one width gives the two halves of the product of the integers, on
    words as on vectors. -/
theorem product_halves (a b : Bits) (hwidth : a.width = b.width) : ∃ low unsigned signed mixed,
    Yields ((of a).mul (of b)) (a.mul b) low ∧
    Yields ((of a).mulHighUnsigned (of b)) (a.mulHighUnsigned b) unsigned ∧
    Yields ((of a).mulHighSigned (of b)) (a.mulHighSigned b) signed ∧
    Yields ((of a).mulHighSignedUnsigned (of b)) (a.mulHighSignedUnsigned b) mixed ∧
    Halves a b low unsigned signed mixed := by
  obtain ⟨w, x, hw⟩ := a
  obtain ⟨v, y, hv⟩ := b
  obtain rfl : w = v := hwidth
  refine ⟨_, _, _, _, ?_, ?_, ?_, ?_, halves_of hw x y⟩
  · exact .of_embed (Stored.mul_of ..) (combine_mk ..)
  · exact .of_embed (Stored.mulHighUnsigned_of ..) (combine_mk ..)
  · exact .of_embed (Stored.mulHighSigned_of ..) (combine_mk ..)
  · exact .of_embed (Stored.mulHighSignedUnsigned_of ..) (combine_mk ..)

/-- -2 ^ 63 times 2 ^ 64 - 1, the product that lies lowest. -/
theorem product_halves_lowest :
    let least : Bits := ⟨64, BitVec.intMin 64, Nat.le_refl 64⟩
    let greatest : Bits := ⟨64, BitVec.allOnes 64, Nat.le_refl 64⟩
    least.width = greatest.width ∧ ∃ low high,
      Yields ((of least).mul (of greatest)) (least.mul greatest) low ∧
      Yields ((of least).mulHighSignedUnsigned (of greatest))
        (least.mulHighSignedUnsigned greatest) high ∧
      high.toInt * 2 ^ 64 + low.toNat = -2 ^ 63 * (2 ^ 64 - 1) := by
  intro least greatest
  have hwidth : least.width = greatest.width := rfl
  obtain ⟨low, _, _, high, hlow, -, -, hhigh, hhalves⟩ := product_halves least greatest hwidth
  exact ⟨hwidth, low, high, hlow, hhigh, hhalves.mixed_eq⟩

end Bits
end RiscvSemantics
