import Mathlib.Algebra.Group.Nat.Defs
import Mathlib.Algebra.Ring.Int.Defs
import RiscvSemantics.Bits.Arithmetic

namespace RiscvSemantics.Bits

/-! What the operations on bit vectors compute, as integers. -/

variable {n : Nat} (a b : BitVec n)

theorem ofInt_toNat : BitVec.ofInt n a.toNat = a := by
  rw [BitVec.ofInt_natCast, BitVec.ofNat_toNat, BitVec.setWidth_eq]

theorem toNat_toInt {a : BitVec n} (h : 0 ≤ a.toInt) : a.toInt.toNat = a.toNat := by
  have hlt := a.isLt
  rw [BitVec.toInt_eq_toNat_cond] at h ⊢
  split at h <;> omega

theorem toNat_abs : a.abs.toNat = a.toInt.natAbs := by
  have hlt := a.isLt
  rw [BitVec.toNat_abs, BitVec.toInt_eq_msb_cond]
  split <;> omega

theorem two_pow_pos (n : Nat) : (0 : Int) < 2 ^ n :=
  Int.pow_pos (by decide)

/-- What the low bits of an integer say without a sign. -/
theorem toNat_ofInt (i : Int) : ((BitVec.ofInt n i).toNat : Int) = i % 2 ^ n := by
  rw [BitVec.toNat_ofInt, Int.natCast_pow]
  exact Int.toNat_of_nonneg (Int.emod_nonneg i (Int.ne_of_gt (two_pow_pos n)))

/-- The signed value tells zero as well as the unsigned one. -/
theorem toInt_eq_zero_iff {a : BitVec n} : a.toInt = 0 ↔ a.toNat = 0 := by
  rw [← BitVec.toInt_zero (w := n), BitVec.toInt_inj, ← BitVec.toNat_inj, BitVec.toNat_zero]

/-- The low bits of an integer do not depend on how many of the others there are. -/
theorem setWidth_ofInt {w : Nat} (hle : w ≤ n) (i : Int) :
    (BitVec.ofInt n i).setWidth w = BitVec.ofInt w i := by
  rw [← BitVec.signExtend_eq_setWidth_of_le _ hle]
  apply BitVec.eq_of_toInt_eq
  rw [BitVec.signExtend, BitVec.toInt_ofInt, BitVec.toInt_ofInt, BitVec.toInt_ofInt,
    Int.bmod_bmod_of_dvd (Nat.pow_dvd_pow 2 hle)]

theorem add_eq_ofInt : a + b = BitVec.ofInt n (a.toInt + b.toInt) := by
  rw [BitVec.ofInt_add, BitVec.ofInt_toInt, BitVec.ofInt_toInt]

theorem add_ofInt (i : Int) : a + BitVec.ofInt n i = BitVec.ofInt n (a.toNat + i) := by
  rw [BitVec.ofInt_add, ofInt_toNat]

theorem sub_eq_ofInt : a - b = BitVec.ofInt n (a.toInt - b.toInt) := by
  rw [Int.sub_eq_add_neg, BitVec.ofInt_add, BitVec.ofInt_neg, BitVec.ofInt_toInt, BitVec.ofInt_toInt,
    BitVec.sub_eq_add_neg]

theorem mul_eq_ofInt : a * b = BitVec.ofInt n (a.toInt * b.toInt) := by
  rw [BitVec.ofInt_mul, BitVec.ofInt_toInt, BitVec.ofInt_toInt]

theorem and_eq_ofInt : a &&& b = BitVec.ofInt n (a.toNat &&& b.toNat : Nat) := by
  rw [← BitVec.toNat_and, ofInt_toNat]

theorem or_eq_ofInt : a ||| b = BitVec.ofInt n (a.toNat ||| b.toNat : Nat) := by
  rw [← BitVec.toNat_or, ofInt_toNat]

theorem xor_eq_ofInt : a ^^^ b = BitVec.ofInt n (a.toNat ^^^ b.toNat : Nat) := by
  rw [← BitVec.toNat_xor, ofInt_toNat]

/-- A shift to the left multiplies. -/
theorem shiftLeft_eq_ofInt (amount : Nat) : a <<< amount = BitVec.ofInt n (a.toNat * 2 ^ amount) := by
  have hcast : (a.toNat : Int) * 2 ^ amount = (a.toNat <<< amount : Nat) := by
    rw [Nat.shiftLeft_eq]
    rfl
  apply BitVec.eq_of_toNat_eq
  rw [hcast, BitVec.ofInt_natCast, BitVec.toNat_shiftLeft, BitVec.toNat_ofNat]

/-- A shift to the right divides the number without a sign. -/
theorem shiftRight_eq_ofInt (amount : Nat) : a >>> amount = BitVec.ofInt n (a.toNat / 2 ^ amount) := by
  have hcast : (a.toNat : Int) / 2 ^ amount = (a.toNat >>> amount : Nat) := by
    rw [Nat.shiftRight_eq_div_pow]
    rfl
  rw [hcast, ← BitVec.toNat_ushiftRight, ofInt_toNat]

/-- A shift to the right that keeps the sign divides the signed number, rounding down. -/
theorem sshiftRight_eq_ofInt (amount : Nat) :
    a.sshiftRight amount = BitVec.ofInt n (a.toInt / 2 ^ amount) := by
  rw [BitVec.sshiftRight, Int.shiftRight_eq_div_pow]
  rfl

/-- What is left of a product above its low half. -/
theorem highHalf_eq_ofInt (product : Int) : highHalf n product = BitVec.ofInt n (product / 2 ^ n) := by
  rw [highHalf, Int.shiftRight_eq_div_pow]
  rfl

theorem udiv_eq_ofInt : a / b = BitVec.ofInt n (a.toNat / b.toNat) := by
  rw [← Int.natCast_ediv, ← BitVec.toNat_udiv, ofInt_toNat]

theorem umod_eq_ofInt : a % b = BitVec.ofInt n (a.toNat % b.toNat) := by
  rw [← Int.natCast_emod, ← BitVec.toNat_umod, ofInt_toNat]

/-- Signed division rounds toward zero. -/
theorem sdiv_eq_ofInt : a.sdiv b = BitVec.ofInt n (a.toInt.tdiv b.toInt) := by
  apply BitVec.eq_of_toInt_eq
  rw [BitVec.toInt_sdiv, BitVec.toInt_ofInt]

theorem srem_eq_ofInt : a.srem b = BitVec.ofInt n (a.toInt.tmod b.toInt) := by
  rw [← BitVec.toInt_srem, BitVec.ofInt_toInt]

/-- One bit, widened. -/
theorem setWidth_ofBool (b : Bool) : (BitVec.ofBool b).setWidth n = BitVec.ofInt n (if b then 1 else 0) := by
  cases b with
  | false => exact (BitVec.setWidth_zero ..).trans (BitVec.ofInt_natCast n 0).symm
  | true =>
    apply BitVec.eq_of_toNat_eq
    rw [BitVec.toNat_setWidth]
    exact congrArg BitVec.toNat (BitVec.ofInt_natCast n 1).symm

/-- Byte `k` of a vector. -/
theorem toNat_extractByte (k : Nat) : (a.extractLsb' (8 * k) 8).toNat = a.toNat / 256 ^ k % 256 := by
  rw [BitVec.extractLsb'_toNat, Nat.shiftRight_eq_div_pow, Nat.pow_mul]

end RiscvSemantics.Bits
