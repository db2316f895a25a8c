import RiscvSemantics.Proofs.Stored.Arithmetic

namespace RiscvSemantics

namespace Bits

open Stored (of Yields)

section Quotients

variable {w : Nat} {x y : BitVec w}

/-- What holds of integers holds of their low bits. -/
theorem ofInt_mul_add {quotient divisor remainder dividend : Int}
    (h : quotient * divisor + remainder = dividend) :
    BitVec.ofInt w quotient * BitVec.ofInt w divisor + BitVec.ofInt w remainder = BitVec.ofInt w dividend := by
  rw [← BitVec.ofInt_mul, ← BitVec.ofInt_add, h]

theorem udiv_mul_add_umod (x y : BitVec w) : x / y * y + x % y = x := by
  have h : BitVec.ofInt w _ * _ + _ = _ := ofInt_mul_add (Int.ediv_mul_add_emod x.toNat y.toNat)
  rwa [← udiv_eq_ofInt, ← umod_eq_ofInt, ofInt_toNat, ofInt_toNat] at h

theorem sdiv_mul_add_srem (x y : BitVec w) : x.sdiv y * y + x.srem y = x := by
  have h : BitVec.ofInt w _ * _ + _ = _ := ofInt_mul_add (Int.tdiv_mul_add_tmod x.toInt y.toInt)
  rwa [← sdiv_eq_ofInt, ← srem_eq_ofInt, BitVec.ofInt_toInt, BitVec.ofInt_toInt] at h

/-- What is put for a quotient by zero does not matter, since it is multiplied by zero again. -/
theorem ite_mul_add {quotient remainder : BitVec w} (h : quotient * y + remainder = x) :
    (if y.toNat = 0 then BitVec.allOnes w else quotient) * y + remainder = x := by
  split
  case isTrue hzero =>
    obtain rfl : y = 0#w := BitVec.eq_of_toNat_eq hzero
    rwa [BitVec.mul_zero] at h ⊢
  case isFalse => exact h

/-- The quotient fits unless it is that of the least number and -1. -/
theorem toInt_sdiv_of_not (hy : y.toNat ≠ 0) (h : ¬ (x.toInt = -2 ^ (w - 1) ∧ y.toInt = -1)) :
    (x.sdiv y).toInt = x.toInt.tdiv y.toInt := by
  have hpos : 0 < w := by
    refine Nat.pos_of_ne_zero ?_
    rintro rfl
    exact hy (Nat.lt_one_iff.mp y.isLt)
  apply BitVec.toInt_sdiv_of_ne_or_ne
  by_cases hx : x = BitVec.intMin w
  · refine Or.inr fun hone => h ?_
    rw [hx, hone, BitVec.toInt_intMin_of_pos hpos, BitVec.neg_one_eq_allOnes, BitVec.toInt_allOnes,
      if_pos hpos]
    exact ⟨rfl, rfl⟩
  · exact Or.inl hx

theorem sdiv_of_overflow (hx : x.toInt = -2 ^ (w - 1)) (hy : y.toInt = -1) : x.sdiv y = x := by
  have hleast : x = BitVec.intMin w := by
    rw [BitVec.intMin_eq_neg_two_pow, ← hx, BitVec.ofInt_toInt]
  have hone : y = -1#w := by
    rw [← BitVec.ofInt_toInt (x := y), hy, BitVec.ofInt_neg, BitVec.ofInt_ofNat]
  rw [hleast, hone, BitVec.intMin_sdiv_neg_one]

theorem tmod_sign (m n : Int) : m.tmod n = 0 ∨ (m.tmod n).sign = m.sign := by
  have hsign := Int.sign_tmod m n
  split at hsign
  case isTrue => exact Or.inl (Int.sign_eq_zero_iff_zero.mp hsign)
  case isFalse => exact Or.inr hsign

theorem natAbs_tmod_lt (m : Int) {n : Int} (hn : n ≠ 0) : (m.tmod n).natAbs < n.natAbs := by
  rw [Int.natAbs_tmod]
  exact Nat.mod_lt _ (Int.natAbs_pos.mpr hn)

end Quotients

/-- The quotient `q` times the divisor `b`, with the remainder `r` added, is the dividend `a`. The
    product and the sum wrap around in the width of the vectors. -/
def Restores (a b q r : Bits) : Prop :=
  Yields ((of q).mul (of b) >>= fun s => s.add (of r))
    (q.mul b >>= fun product => product.add r) a

/-- The quotient `q` and the remainder `r` of two numbers `a` and `b` without a sign. -/
structure DividesUnsigned (a b q r : Bits) : Prop where
  widths : q.width = a.width ∧ r.width = a.width
  quotient : b.toNat ≠ 0 → q.toNat = a.toNat / b.toNat
  remainder : b.toNat ≠ 0 → r.toNat = a.toNat % b.toNat
  by_zero : b.toNat = 0 → allOnes a.width = .ok q ∧ r = a
  restores : Restores a b q r

/-- The one quotient that does not fit is that of the least number and -1. -/
def Overflows (a b : Bits) : Prop :=
  a.toInt = -2 ^ (a.width - 1) ∧ b.toInt = -1

/-- The quotient `q` and the remainder `r` of two signed numbers `a` and `b`. The quotient is rounded
    toward zero. -/
structure DividesSigned (a b q r : Bits) : Prop where
  widths : q.width = a.width ∧ r.width = a.width
  quotient : b.toNat ≠ 0 → ¬ Overflows a b → q.toInt = a.toInt.tdiv b.toInt
  remainder : b.toNat ≠ 0 → r.toInt = a.toInt.tmod b.toInt
  remainder_sign : b.toNat ≠ 0 → r.toInt = 0 ∨ r.toInt.sign = a.toInt.sign
  remainder_lt : b.toNat ≠ 0 → r.toInt.natAbs < b.toInt.natAbs
  overflow : Overflows a b → q = a ∧ r.toInt = 0
  by_zero : b.toNat = 0 → allOnes a.width = .ok q ∧ r = a
  restores : Restores a b q r

section Results

variable {w : Nat} (hw : w ≤ 64) (x y : BitVec w)

theorem restores_of {q r : BitVec w} (h : q * y + r = x) :
    Restores ⟨w, x, hw⟩ ⟨w, y, hw⟩ ⟨w, q, hw⟩ ⟨w, r, hw⟩ := by
  have hproduct : Yields ((of ⟨w, q, hw⟩).mul (of ⟨w, y, hw⟩)) (mul ⟨w, q, hw⟩ ⟨w, y, hw⟩)
      ⟨w, q * y, hw⟩ := .of_embed (Stored.mul_of ..) (combine_mk ..)
  have hsum : Yields ((of ⟨w, q * y, hw⟩).add (of ⟨w, r, hw⟩)) (add ⟨w, q * y, hw⟩ ⟨w, r, hw⟩)
      ⟨w, q * y + r, hw⟩ := .of_embed (Stored.add_of ..) (combine_mk ..)
  rw [h] at hsum
  exact hproduct.bind hsum

theorem dividesUnsigned_of : DividesUnsigned ⟨w, x, hw⟩ ⟨w, y, hw⟩
    ⟨w, if y.toNat = 0 then BitVec.allOnes w else x / y, hw⟩ ⟨w, x % y, hw⟩ := by
  constructor
  case widths => exact ⟨rfl, rfl⟩
  case quotient =>
    intro hy
    rw [toNat_mk] at hy
    rw [if_neg hy]
    exact BitVec.toNat_udiv
  case remainder => exact fun _ => BitVec.toNat_umod
  case by_zero =>
    intro hy
    obtain rfl : y = 0#w := BitVec.eq_of_toNat_eq hy
    rw [if_pos BitVec.toNat_zero, BitVec.umod_zero]
    exact ⟨dif_pos hw, rfl⟩
  case restores => exact restores_of hw x y (ite_mul_add (udiv_mul_add_umod x y))

theorem dividesSigned_of : DividesSigned ⟨w, x, hw⟩ ⟨w, y, hw⟩
    ⟨w, if y.toNat = 0 then BitVec.allOnes w else x.sdiv y, hw⟩ ⟨w, x.srem y, hw⟩ := by
  have hremainder : (x.srem y).toInt = x.toInt.tmod y.toInt := BitVec.toInt_srem x y
  constructor
  case widths => exact ⟨rfl, rfl⟩
  case quotient =>
    intro hy hfits
    rw [toNat_mk] at hy
    rw [if_neg hy]
    exact toInt_sdiv_of_not hy hfits
  case remainder => exact fun _ => hremainder
  case remainder_sign =>
    intro _
    rw [toInt_mk, hremainder]
    exact tmod_sign x.toInt y.toInt
  case remainder_lt =>
    intro hy
    rw [toInt_mk, hremainder]
    exact natAbs_tmod_lt x.toInt (mt toInt_eq_zero_iff.mp hy)
  case overflow =>
    rintro ⟨hleast, hone⟩
    rw [toInt_mk] at hleast hone
    have hy : y.toNat ≠ 0 := by
      rw [Ne, ← toInt_eq_zero_iff, hone]
      decide
    rw [if_neg hy, sdiv_of_overflow hleast hone, toInt_mk, hremainder, hone, Int.tmod_neg, Int.tmod_one]
    exact ⟨rfl, rfl⟩
  case by_zero =>
    intro hy
    obtain rfl : y = 0#w := BitVec.eq_of_toNat_eq hy
    rw [if_pos BitVec.toNat_zero, BitVec.srem_zero]
    exact ⟨dif_pos hw, rfl⟩
  case restores => exact restores_of hw x y (ite_mul_add (sdiv_mul_add_srem x y))

end Results

/-- Dividing two vectors of one width gives a quotient and a remainder that belong together, with or
    without a sign, on words as on vectors. -/
theorem divides (a b : Bits) (hwidth : a.width = b.width) :
    (∃ q r,
      Yields ((of a).divUnsigned (of b)) (a.divUnsigned b) q ∧
      Yields ((of a).remUnsigned (of b)) (a.remUnsigned b) r ∧
      DividesUnsigned a b q r) ∧
    ∃ q r,
      Yields ((of a).divSigned (of b)) (a.divSigned b) q ∧
      Yields ((of a).remSigned (of b)) (a.remSigned b) r ∧
      DividesSigned a b q r := by
  obtain ⟨w, x, hw⟩ := a
  obtain ⟨v, y, hv⟩ := b
  obtain rfl : w = v := hwidth
  refine ⟨⟨_, _, ?_, ?_, dividesUnsigned_of hw x y⟩, ⟨_, _, ?_, ?_, dividesSigned_of hw x y⟩⟩
  · exact .of_embed (Stored.divUnsigned_of ..) (combine_mk ..)
  · exact .of_embed (Stored.remUnsigned_of ..) (combine_mk ..)
  · exact .of_embed (Stored.divSigned_of ..) (combine_mk ..)
  · exact .of_embed (Stored.remSigned_of ..) (combine_mk ..)

/-- -2 ^ 63 divided by -1 on words of 64 bits, which are just as wide as the vectors. -/
theorem divides_least_by_minus_one :
    let least : Bits := ⟨64, BitVec.intMin 64, Nat.le_refl 64⟩
    let minusOne : Bits := ⟨64, BitVec.allOnes 64, Nat.le_refl 64⟩
    least.width = minusOne.width ∧ Overflows least minusOne ∧ ∃ r,
      Yields ((of least).divSigned (of minusOne)) (least.divSigned minusOne) least ∧
      Yields ((of least).remSigned (of minusOne)) (least.remSigned minusOne) r ∧
      r.toInt = 0 ∧ Restores least minusOne least r := by
  intro least minusOne
  have hwidth : least.width = minusOne.width := rfl
  have hoverflow : Overflows least minusOne := ⟨rfl, rfl⟩
  obtain ⟨-, q, r, hquotient, hremainder, hdivides⟩ := divides least minusOne hwidth
  obtain ⟨rfl, hzero⟩ := hdivides.overflow hoverflow
  exact ⟨hwidth, hoverflow, r, hquotient, hremainder, hzero, hdivides.restores⟩

end Bits
end RiscvSemantics
