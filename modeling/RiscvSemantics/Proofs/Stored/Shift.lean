import RiscvSemantics.Bits.Shift
import RiscvSemantics.Proofs.Stored.Arithmetic

namespace RiscvSemantics

namespace Bits

/-- Nothing of a vector is left when it is moved by its width or more. -/
theorem shiftLeft_eq (a : Bits) (amount : Nat) :
    a.shiftLeft amount = ⟨a.width, a.value <<< amount, a.width_le⟩ := by
  rw [shiftLeft]
  split
  case isTrue => rfl
  case isFalse h => rw [BitVec.shiftLeft_eq_zero (Nat.not_lt.mp h)]

theorem shiftRight_eq (a : Bits) (amount : Nat) :
    a.shiftRight amount = ⟨a.width, a.value >>> amount, a.width_le⟩ := by
  rw [shiftRight]
  split
  case isTrue => rfl
  case isFalse h => rw [BitVec.ushiftRight_eq_zero (Nat.not_lt.mp h)]

/-- A rotation is a shift to the left together with one to the right that brings back what the
    first has moved out. -/
theorem or_shift (a : Bits) (amount : Int) (hwidth : a.width ≠ 0) :
    (a.shift (amount % a.width)).or (a.shift (amount % a.width - a.width)) = .ok (a.rotate amount) := by
  have hlow : 0 ≤ amount % a.width := Int.emod_nonneg _ (by omega)
  have hhigh : amount % a.width < a.width := Int.emod_lt_of_pos _ (by omega)
  have hback : (amount % a.width - a.width).natAbs = a.width - (amount % a.width).toNat := by omega
  have hturn : (amount % a.width).toNat % a.width = (amount % a.width).toNat := by
    apply Nat.mod_eq_of_lt
    omega
  rw [shift, if_pos hlow, shift, if_neg (by omega), hback, shiftLeft_eq, shiftRight_eq, rotate, if_neg hwidth,
    BitVec.rotateLeft_def, hturn]
  exact combine_mk .disjunction (fun x y => x ||| y) _ _ a.width_le a.width_le

/-- Only the amount modulo the width counts, and no amount does when there are no bits. -/
theorem rotate_emod (a : Bits) (amount : Int) :
    a.rotate (amount % (max a.width 1 : Nat)) = a.rotate amount := by
  by_cases h : a.width = 0
  · rw [rotate, rotate, if_pos h, if_pos h]
  · have hmax : max a.width 1 = a.width := by omega
    rw [hmax, rotate, rotate, Int.emod_emod]

end Bits

namespace Stored

/-- Amounts of the width or more are looked at first, so that the word is never shifted too far. -/
def shiftLeft (s : Stored) (amount : BitVec 64) : Checked Stored :=
  if s.width.toNat ≤ amount.toNat then zero s.width
  else do
    let moved ← Checked.shiftLeft s.bits amount.toNat
    new s.width moved

def shiftRight (s : Stored) (amount : BitVec 64) : Checked Stored :=
  if s.width.toNat ≤ amount.toNat then zero s.width
  else do
    let moved ← Checked.shiftRight s.bits amount.toNat
    new s.width moved

def shiftRightSigned (s : Stored) (amount : BitVec 64) : Checked Stored :=
  if s.width = 0#32 then .ok s
  else do
    let most ← Checked.sub (s.width.setWidth 64) 1#64
    let value ← s.signed
    let moved ← Checked.shiftRightSigned value (min amount.toNat most.toNat)
    ofSigned s.width moved

/-- The amount is signed. The absolute value of the least one fits, without a sign. -/
def shift (s : Stored) (amount : BitVec 64) : Checked Stored :=
  if 0 ≤ amount.toInt then s.shiftLeft amount else s.shiftRight amount.abs

/-- The amount is signed. -/
def rotate (s : Stored) (amount : BitVec 64) : Checked Stored :=
  if s.width = 0#32 then .ok s
  else do
    let turn ← Checked.remEuclid amount (s.width.setWidth 64)
    let left ← s.shift turn
    let back ← Checked.subSigned turn (s.width.setWidth 64)
    let right ← s.shift back
    left.or right

/-- Rotates by the unsigned value of a vector, which is cut down to less than the width, so that it
    is the same as a signed number. -/
def rotateBy (s t : Stored) : Checked Stored := do
  let amount ← Checked.rem t.bits (BitVec.ofNat 64 (max s.width.toNat 1))
  s.rotate amount

theorem shiftLeft_of (a : Bits) (amount : BitVec 64) :
    (of a).shiftLeft amount = .ok (of (a.shiftLeft amount.toNat)) := by
  obtain ⟨w, x, hw⟩ := a
  rw [shiftLeft, of, toNat_width hw, Bits.shiftLeft_eq]
  split
  case isTrue h => rw [zero, new_width hw, BitVec.setWidth_zero, BitVec.shiftLeft_eq_zero h]
  case isFalse h =>
    rw [Checked.shiftLeft_ok _ (by omega), Checked.ok_bind, new_width hw, BitVec.setWidth_shiftLeft_of_le hw,
      setWidth_word hw]

theorem shiftRight_of (a : Bits) (amount : BitVec 64) :
    (of a).shiftRight amount = .ok (of (a.shiftRight amount.toNat)) := by
  obtain ⟨w, x, hw⟩ := a
  rw [shiftRight, of, toNat_width hw, Bits.shiftRight_eq]
  split
  case isTrue h => rw [zero, new_width hw, BitVec.setWidth_zero, BitVec.ushiftRight_eq_zero h]
  case isFalse h =>
    rw [Checked.shiftRight_ok _ (by omega), Checked.ok_bind, new_width hw, ← BitVec.setWidth_ushiftRight hw,
      setWidth_word hw]

theorem toNat_width_double {w : Nat} (hw : w ≤ 64) : ((BitVec.ofNat 32 w).setWidth 64).toNat = w := by
  rw [BitVec.toNat_setWidth_of_le (by decide), toNat_width hw]

theorem toInt_width_double {w : Nat} (hw : w ≤ 64) : ((BitVec.ofNat 32 w).setWidth 64).toInt = w := by
  rw [BitVec.toInt_eq_toNat_of_lt, toNat_width_double hw]
  rw [toNat_width_double hw]
  omega

theorem shiftRightSigned_of (a : Bits) (amount : BitVec 64) :
    (of a).shiftRightSigned amount = .ok (of (a.shiftRightSigned amount.toNat)) := by
  obtain ⟨w, x, hw⟩ := a
  rw [shiftRightSigned, Bits.shiftRightSigned]
  split
  case isTrue h =>
    obtain rfl : w = 0 := (width_eq_zero hw).mp h
    simp only [Nat.zero_sub, Nat.min_zero, BitVec.sshiftRight_zero]
  case isFalse h =>
    have hpos : w ≠ 0 := mt (width_eq_zero hw).mpr h
    have hone : 1#64 ≤ (BitVec.ofNat 32 w).setWidth 64 := by
      rw [BitVec.le_def, toNat_width_double hw, BitVec.toNat_ofNat]
      omega
    have hmost : ((BitVec.ofNat 32 w).setWidth 64 - 1#64).toNat = w - 1 := by
      rw [BitVec.toNat_sub_of_le hone, toNat_width_double hw, BitVec.toNat_ofNat]
    have hcut (k : Nat) : ((x.signExtend 64).sshiftRight k).setWidth w = x.sshiftRight k := by
      rw [Bits.sshiftRight_eq_ofInt, Bits.setWidth_ofInt hw, BitVec.toInt_signExtend_of_le hw,
        ← Bits.sshiftRight_eq_ofInt]
    rw [signed_of, of, Checked.sub_ok (BitVec.le_def.mp hone), Checked.ok_bind, Checked.ok_bind, hmost,
      Checked.shiftRightSigned_ok _ (by omega), Checked.ok_bind, ofSigned, new_width hw, hcut]

theorem shift_of (a : Bits) (amount : BitVec 64) :
    (of a).shift amount = .ok (of (a.shift amount.toInt)) := by
  rw [shift, Bits.shift]
  split
  case isTrue h => rw [shiftLeft_of, Bits.toNat_toInt h]
  case isFalse h => rw [shiftRight_of, Bits.toNat_abs]

/-- The turn is below the width, so that the way back is no less than -64. -/
theorem rotate_of (a : Bits) (amount : BitVec 64) :
    (of a).rotate amount = .ok (of (a.rotate amount.toInt)) := by
  rw [rotate]
  split
  case isTrue h =>
    have hzero : a.width = 0 := (width_eq_zero a.width_le).mp h
    rw [Bits.rotate, if_pos hzero]
  case isFalse h =>
    have hzero : a.width ≠ 0 := mt (width_eq_zero a.width_le).mpr h
    have hwidth : ((of a).width.setWidth 64).toInt = a.width := toInt_width_double a.width_le
    have hfits := a.width_le
    generalize (of a).width.setWidth 64 = width at hwidth ⊢
    have hlow : 0 ≤ amount.toInt % a.width := Int.emod_nonneg _ (by omega)
    have hhigh : amount.toInt % a.width < a.width := Int.emod_lt_of_pos _ (by omega)
    have hturn : (BitVec.ofInt 64 (amount.toInt % a.width)).toInt = amount.toInt % a.width :=
      BitVec.toInt_ofInt_eq_self (by decide) (by omega) (by omega)
    have hback : (BitVec.ofInt 64 (amount.toInt % a.width) - width).toInt =
        amount.toInt % a.width - a.width := by
      rw [Bits.sub_eq_ofInt, hturn, hwidth, BitVec.toInt_ofInt_eq_self (by decide) (by omega) (by omega)]
    rw [Checked.remEuclid_ok _ (by omega), hwidth, Checked.ok_bind, shift_of, hturn, Checked.ok_bind,
      Checked.subSigned_ok (by omega) (by omega), Checked.ok_bind, shift_of, hback, Checked.ok_bind, or_of,
      Bits.or_shift a _ hzero]
    rfl

theorem rotateBy_of (a b : Bits) : (of a).rotateBy (of b) = .ok (of (a.rotate b.toNat)) := by
  have hfits := a.width_le
  have hwidth : (of a).width.toNat = a.width := toNat_width hfits
  have hbits : (of b).bits.toNat = b.toNat := BitVec.toNat_setWidth_of_le b.width_le
  have hdivisor : (BitVec.ofNat 64 (max a.width 1)).toNat = max a.width 1 := by
    rw [BitVec.toNat_ofNat]
    omega
  have hne : BitVec.ofNat 64 (max a.width 1) ≠ 0#64 := by
    rw [Ne, ← BitVec.toNat_inj, hdivisor, BitVec.toNat_zero]
    omega
  have hrem : ((of b).bits % BitVec.ofNat 64 (max a.width 1)).toNat = b.toNat % max a.width 1 := by
    rw [BitVec.toNat_umod, hbits, hdivisor]
  have hamount : ((of b).bits % BitVec.ofNat 64 (max a.width 1)).toInt = b.toNat % (max a.width 1 : Nat) := by
    have hlt : b.toNat % max a.width 1 < max a.width 1 := Nat.mod_lt _ (by omega)
    rw [BitVec.toInt_eq_toNat_of_lt (by omega), hrem, Int.natCast_emod]
  rw [rotateBy, hwidth, Checked.rem_ok _ hne, Checked.ok_bind, rotate_of, hamount, Bits.rotate_emod]

end Stored
end RiscvSemantics
