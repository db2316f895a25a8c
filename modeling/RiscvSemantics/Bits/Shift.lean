import RiscvSemantics.Bits.Basic

namespace RiscvSemantics.Bits

/-- Moves every bit up by `amount`; zeros come in at the bottom. -/
def shiftLeft (a : Bits) (amount : Nat) : Bits :=
  if amount < a.width then ⟨a.width, a.value <<< amount, a.width_le⟩
  else ⟨a.width, 0#a.width, a.width_le⟩

/-- Moves every bit down by `amount`; zeros come in at the top. -/
def shiftRight (a : Bits) (amount : Nat) : Bits :=
  if amount < a.width then ⟨a.width, a.value >>> amount, a.width_le⟩
  else ⟨a.width, 0#a.width, a.width_le⟩

/-- Moves every bit down by `amount`; copies of the top bit come in at the top.
    From `width - 1` on all bits are such copies. -/
def shiftRightSigned (a : Bits) (amount : Nat) : Bits :=
  ⟨a.width, a.value.sshiftRight (min amount (a.width - 1)), a.width_le⟩

/-- Shifts left by a positive amount and right by a negative one, zeros coming
    in at either end. -/
def shift (a : Bits) (amount : Int) : Bits :=
  if 0 ≤ amount then a.shiftLeft amount.toNat else a.shiftRight amount.natAbs

/-- Rotates left; the amount counts modulo the width, so a negative one rotates
    right. A vector without bits stays as it is. -/
def rotate (a : Bits) (amount : Int) : Bits :=
  if a.width = 0 then a
  else ⟨a.width, a.value.rotateLeft (amount % a.width).toNat, a.width_le⟩

@[simp] theorem width_shiftLeft (a : Bits) (amount : Nat) : (a.shiftLeft amount).width = a.width := by
  unfold shiftLeft
  split <;> rfl

@[simp] theorem width_shiftRight (a : Bits) (amount : Nat) : (a.shiftRight amount).width = a.width := by
  unfold shiftRight
  split <;> rfl

@[simp] theorem width_shiftRightSigned (a : Bits) (amount : Nat) :
    (a.shiftRightSigned amount).width = a.width := rfl

@[simp] theorem width_shift (a : Bits) (amount : Int) : (a.shift amount).width = a.width := by
  unfold shift
  split <;> simp

@[simp] theorem width_rotate (a : Bits) (amount : Int) : (a.rotate amount).width = a.width := by
  unfold rotate
  split <;> rfl

end RiscvSemantics.Bits
