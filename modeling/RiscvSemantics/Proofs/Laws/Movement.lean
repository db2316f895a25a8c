import RiscvSemantics.Proofs.Stored.Chain

namespace RiscvSemantics

namespace Bits

/-- Vectors of one width that have the same bits are equal. -/
theorem eq_of_bit {a b : Bits} (hwidth : a.width = b.width) (hbit : ∀ i < b.width, a.bit i = b.bit i) :
    a = b := by
  obtain ⟨w, x, hw⟩ := a
  obtain ⟨v, y, hv⟩ := b
  obtain rfl : w = v := hwidth
  obtain rfl : x = y := BitVec.eq_of_getLsbD_eq hbit
  rfl

/-- Counting back from a position by less than the width, around the end of the vector. -/
theorem toNat_sub_emod {w turn i : Nat} (hturn : turn < w) (hi : i < w) :
    (((i : Int) - turn) % w).toNat = if i < turn then w - turn + i else i - turn := by
  split
  case isTrue hlt =>
    rw [← Int.add_emod_right, Int.emod_eq_of_lt (by omega) (by omega)]
    omega
  case isFalse hge =>
    rw [Int.emod_eq_of_lt (by omega) (by omega)]
    omega

section Positions

variable (a : Bits)

/-- Beyond the top of a vector there are no set bits that could come in. -/
theorem bit_shiftRight (amount i : Nat) : (a.shiftRight amount).bit i = a.bit (i + amount) := by
  rw [shiftRight_eq, bit_mk, BitVec.getLsbD_ushiftRight, Nat.add_comm]
  rfl

variable {i : Nat} (hi : i < a.width)

include hi in
theorem bit_shiftLeft (amount : Nat) :
    (a.shiftLeft amount).bit i = if amount ≤ i then a.bit (i - amount) else false := by
  rw [shiftLeft_eq, bit_mk, BitVec.getLsbD_shiftLeft, decide_eq_true hi, Bool.true_and]
  split
  case isTrue hle =>
    rw [decide_eq_false (Nat.not_lt.mpr hle)]
    rfl
  case isFalse hlt =>
    rw [decide_eq_true (Nat.not_le.mp hlt)]
    rfl

include hi in
/-- The top bit is read wherever a bit beyond it would be. -/
theorem bit_shiftRightSigned (amount : Nat) :
    (a.shiftRightSigned amount).bit i = a.bit (min (i + amount) (a.width - 1)) := by
  have htop : a.value.msb = a.bit (a.width - 1) := BitVec.msb_eq_getLsbD_last a.value
  rw [shiftRightSigned, bit_mk, BitVec.getLsbD_sshiftRight, decide_eq_false (Nat.not_le.mpr hi),
    Bool.not_false, Bool.true_and, htop]
  split
  case isTrue hinside =>
    rw [show min (i + amount) (a.width - 1) = min amount (a.width - 1) + i by omega]
    rfl
  case isFalse hbeyond => rw [show min (i + amount) (a.width - 1) = a.width - 1 by omega]

include hi in
/-- A negative amount counts on where a positive one counts back. -/
theorem bit_shift (amount : Int) :
    (a.shift amount).bit i = if amount ≤ i then a.bit (i - amount).toNat else false := by
  rw [shift]
  split
  case isTrue hup =>
    obtain ⟨k, rfl⟩ := Int.eq_ofNat_of_zero_le hup
    rw [Int.toNat_natCast, a.bit_shiftLeft hi, Int.toNat_sub]
    simp only [Int.ofNat_le]
  case isFalse hdown =>
    have hposition : (i - amount).toNat = i + amount.natAbs := by omega
    rw [a.bit_shiftRight, if_pos (by omega), hposition]

include hi in
/-- Only the amount modulo the width is carried out; it makes no difference to where a position is
    after counting back around the end. -/
theorem bit_rotate (amount : Int) :
    (a.rotate amount).bit i = a.bit ((i - amount) % a.width).toNat := by
  have hlow : 0 ≤ amount % a.width := Int.emod_nonneg _ (by omega)
  have hhigh : amount % a.width < a.width := Int.emod_lt_of_pos _ (by omega)
  obtain ⟨turn, hamount⟩ := Int.eq_ofNat_of_zero_le hlow
  have hturn : turn < a.width := by omega
  rw [rotate, if_neg (by omega), bit_mk, ← Int.sub_emod_emod, hamount, Int.toNat_natCast,
    BitVec.getLsbD_rotateLeft, Nat.mod_eq_of_lt hturn, toNat_sub_emod hturn hi]
  split
  case isTrue hlt =>
    rw [decide_eq_true hlt]
    rfl
  case isFalse hge =>
    rw [decide_eq_false hge, decide_eq_true hi]
    rfl

theorem rotate_rotate (m n : Int) : (a.rotate m).rotate n = a.rotate (m + n) := by
  apply eq_of_bit
  case hwidth => rw [width_rotate, width_rotate, width_rotate]
  case hbit =>
    intro i hi
    rw [width_rotate] at hi
    have hmiddle : i < (a.rotate m).width := by rwa [width_rotate]
    have hnonneg : 0 ≤ (i - n) % (a.width : Int) := Int.emod_nonneg _ (by omega)
    have hinside : (i - n) % (a.width : Int) < a.width := Int.emod_lt_of_pos _ (by omega)
    rw [bit_rotate _ hmiddle, width_rotate, bit_rotate a (by omega), bit_rotate a hi,
      Int.toNat_of_nonneg hnonneg, Int.emod_sub_emod, Int.sub_sub, Int.add_comm n m]

theorem rotate_mul_width (k : Int) : a.rotate (k * a.width) = a := by
  apply eq_of_bit
  case hwidth => exact width_rotate ..
  case hbit =>
    intro i hi
    rw [bit_rotate a hi, Int.sub_mul_emod_self_right, Int.emod_eq_of_lt (by omega) (by omega),
      Int.toNat_natCast]

end Positions

/-- A vector of this width, with these bits in it. -/
def HasBits (a : Bits) (width : Nat) (bits : Nat → Bool) : Prop :=
  a.width = width ∧ ∀ i < width, a.bit i = bits i

/-- Where shifts and rotations take the bits of a vector. No amount is too large for this, and those
    of `shift` and `rotate` can be negative. -/
structure Moves (a : Bits) : Prop where
  shiftLeft : ∀ amount : Nat, (a.shiftLeft amount).HasBits a.width fun i =>
    if amount ≤ i then a.bit (i - amount) else false
  shiftRight : ∀ amount : Nat, (a.shiftRight amount).HasBits a.width fun i => a.bit (i + amount)
  shiftRightSigned : ∀ amount : Nat, (a.shiftRightSigned amount).HasBits a.width fun i =>
    a.bit (min (i + amount) (a.width - 1))
  shift : ∀ amount : Int, (a.shift amount).HasBits a.width fun i =>
    if amount ≤ i then a.bit (i - amount).toNat else false
  rotate : ∀ amount : Int, (a.rotate amount).HasBits a.width fun i =>
    a.bit ((i - amount) % a.width).toNat
  rotate_rotate : ∀ m n : Int, (a.rotate m).rotate n = a.rotate (m + n)
  rotate_mul_width : ∀ k : Int, a.rotate (k * a.width) = a
  rotate_operator : ∀ b : Bits, BinaryOp.rotate.apply a b = .ok (a.rotate b.toNat)

end Bits

/-- Words move their bits as vectors do, by every amount of 64 bits. The amounts of `shift` and
    `rotate` are signed, the amount of the operator is not. -/
structure Stored.Moves (a : Bits) : Prop where
  shiftLeft : ∀ amount : BitVec 64, (of a).shiftLeft amount = .ok (of (a.shiftLeft amount.toNat))
  shiftRight : ∀ amount : BitVec 64, (of a).shiftRight amount = .ok (of (a.shiftRight amount.toNat))
  shiftRightSigned : ∀ amount : BitVec 64,
    (of a).shiftRightSigned amount = .ok (of (a.shiftRightSigned amount.toNat))
  shift_of_nonneg : ∀ amount : BitVec 64, 0 ≤ amount.toInt →
    (of a).shift amount = .ok (of (a.shiftLeft amount.toInt.toNat))
  shift_of_neg : ∀ amount : BitVec 64, amount.toInt < 0 →
    (of a).shift amount = .ok (of (a.shiftRight amount.toInt.natAbs))
  rotate : ∀ amount : BitVec 64, (of a).rotate amount = .ok (of (a.rotate amount.toInt))
  rotate_operator : ∀ b : Bits, binary .rotate (of a) (of b) = .ok (of (a.rotate b.toNat))

/-- Every bit of a vector that is shifted or rotated comes from the position that the amount says,
    on words as on vectors. -/
theorem Bits.moves_bitwise (a : Bits) : a.Moves ∧ Stored.Moves a := by
  constructor
  · constructor
    case shiftLeft => exact fun amount => ⟨width_shiftLeft .., fun _ hi => a.bit_shiftLeft hi amount⟩
    case shiftRight => exact fun amount => ⟨width_shiftRight .., fun i _ => a.bit_shiftRight amount i⟩
    case shiftRightSigned => exact fun amount => ⟨rfl, fun _ hi => a.bit_shiftRightSigned hi amount⟩
    case shift => exact fun amount => ⟨width_shift .., fun _ hi => a.bit_shift hi amount⟩
    case rotate => exact fun amount => ⟨width_rotate .., fun _ hi => a.bit_rotate hi amount⟩
    case rotate_rotate => exact a.rotate_rotate
    case rotate_mul_width => exact a.rotate_mul_width
    case rotate_operator => exact fun _ => rfl
  · constructor
    case shiftLeft => exact Stored.shiftLeft_of a
    case shiftRight => exact Stored.shiftRight_of a
    case shiftRightSigned => exact Stored.shiftRightSigned_of a
    case shift_of_nonneg =>
      intro amount hup
      rw [Stored.shift_of, Bits.shift, if_pos hup]
    case shift_of_neg =>
      intro amount hdown
      rw [Stored.shift_of, Bits.shift, if_neg (Int.not_le.mpr hdown)]
    case rotate => exact Stored.rotate_of a
    case rotate_operator => exact Stored.rotateBy_of a

example : BinaryOp.rotate.apply ⟨5, 1#5, by decide⟩ ⟨64, BitVec.intMin 64, by decide⟩ =
    .ok ⟨5, 8#5, by decide⟩ := by
  decide

end RiscvSemantics
