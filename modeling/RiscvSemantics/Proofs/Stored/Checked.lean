import Mathlib.Algebra.Group.Nat.Defs
import Mathlib.Algebra.Ring.Int.Defs
import RiscvSemantics.Fault

namespace RiscvSemantics

/-- Why a computation on machine words breaks off: its caller is at fault, or the words do not
    allow a step of it. -/
inductive Mishap where
  | fault (fault : Fault)
  | overflow
  | shiftTooFar
  | divisionByZero
deriving DecidableEq

/-- A computation on machine words that breaks off where a step is not allowed. -/
abbrev Checked := Except Mishap

/-! Arithmetic on machine words that never wraps around: what does not fit is a mishap, and so is
a shift by the size of the word or more. -/

namespace Checked

variable {w : Nat}

/-- A value that is there only if a condition does not hold. -/
def barring {α : Type} (condition : Prop) [Decidable condition] (mishap : Mishap) (value : α) : Checked α :=
  if condition then .error mishap else .ok value

def add (x y : BitVec w) : Checked (BitVec w) :=
  barring (x.uaddOverflow y) .overflow (x + y)

def sub (x y : BitVec w) : Checked (BitVec w) :=
  barring (x.usubOverflow y) .overflow (x - y)

def subSigned (x y : BitVec w) : Checked (BitVec w) :=
  barring (x.ssubOverflow y) .overflow (x - y)

def mul (x y : BitVec w) : Checked (BitVec w) :=
  barring (x.umulOverflow y) .overflow (x * y)

def mulSigned (x y : BitVec w) : Checked (BitVec w) :=
  barring (x.smulOverflow y) .overflow (x * y)

def shiftLeft (x : BitVec w) (amount : Nat) : Checked (BitVec w) :=
  barring (w ≤ amount) .shiftTooFar (x <<< amount)

def shiftRight (x : BitVec w) (amount : Nat) : Checked (BitVec w) :=
  barring (w ≤ amount) .shiftTooFar (x >>> amount)

def shiftRightSigned (x : BitVec w) (amount : Nat) : Checked (BitVec w) :=
  barring (w ≤ amount) .shiftTooFar (x.sshiftRight amount)

def rem (x y : BitVec w) : Checked (BitVec w) :=
  barring (y = 0#w) .divisionByZero (x % y)

/-- The remainder that is never negative. The quotient that belongs to it must fit. -/
def remEuclid (x y : BitVec w) : Checked (BitVec w) :=
  if y = 0#w then .error .divisionByZero
  else barring (x = BitVec.intMin w ∧ y.toInt = -1) .overflow (BitVec.ofInt w (x.toInt % y.toInt))

/-- The signed quotient, which wraps around for the least number and -1. -/
def divWrapping (x y : BitVec w) : Checked (BitVec w) :=
  barring (y = 0#w) .divisionByZero (x.sdiv y)

/-- The signed remainder, which is zero for the least number and -1. -/
def remWrapping (x y : BitVec w) : Checked (BitVec w) :=
  barring (y = 0#w) .divisionByZero (x.srem y)

/-! The forms that answer with nothing where there is no result. -/

def div? (x y : BitVec w) : Option (BitVec w) :=
  if y = 0#w then none else some (x / y)

def rem? (x y : BitVec w) : Option (BitVec w) :=
  if y = 0#w then none else some (x % y)

def shiftLeft? (x : BitVec w) (amount : Nat) : Option (BitVec w) :=
  if w ≤ amount then none else some (x <<< amount)

def shiftRight? (x : BitVec w) (amount : Nat) : Option (BitVec w) :=
  if w ≤ amount then none else some (x >>> amount)

/-! When there is a result. -/

variable {x y : BitVec w} {amount : Nat}

theorem barring_ok {α : Type} {condition : Prop} [Decidable condition] {mishap : Mishap} {value : α}
    (h : ¬ condition) : barring condition mishap value = .ok value :=
  if_neg h

@[simp] theorem ok_bind {α β : Type} (a : α) (f : α → Checked β) : (Except.ok a : Checked α) >>= f = f a :=
  rfl

theorem add_ok (h : x.toNat + y.toNat < 2 ^ w) : add x y = .ok (x + y) := by
  apply barring_ok
  simp only [BitVec.uaddOverflow, decide_eq_true_eq]
  omega

theorem sub_ok (h : y.toNat ≤ x.toNat) : sub x y = .ok (x - y) := by
  apply barring_ok
  simp only [BitVec.usubOverflow, decide_eq_true_eq]
  omega

theorem subSigned_ok (hlow : -2 ^ (w - 1) ≤ x.toInt - y.toInt) (hhigh : x.toInt - y.toInt < 2 ^ (w - 1)) :
    subSigned x y = .ok (x - y) := by
  apply barring_ok
  simp only [BitVec.ssubOverflow, Bool.or_eq_true, decide_eq_true_eq]
  omega

theorem mul_ok (h : x.toNat * y.toNat < 2 ^ w) : mul x y = .ok (x * y) := by
  apply barring_ok
  simp only [BitVec.umulOverflow, decide_eq_true_eq]
  omega

theorem mulSigned_ok (hlow : -2 ^ (w - 1) ≤ x.toInt * y.toInt) (hhigh : x.toInt * y.toInt < 2 ^ (w - 1)) :
    mulSigned x y = .ok (x * y) := by
  apply barring_ok
  simp only [BitVec.smulOverflow, Bool.or_eq_true, decide_eq_true_eq]
  omega

theorem shiftLeft_ok (x : BitVec w) (h : amount < w) : shiftLeft x amount = .ok (x <<< amount) :=
  barring_ok (Nat.not_le.mpr h)

theorem shiftRight_ok (x : BitVec w) (h : amount < w) : shiftRight x amount = .ok (x >>> amount) :=
  barring_ok (Nat.not_le.mpr h)

theorem shiftRightSigned_ok (x : BitVec w) (h : amount < w) :
    shiftRightSigned x amount = .ok (x.sshiftRight amount) :=
  barring_ok (Nat.not_le.mpr h)

theorem rem_ok (x : BitVec w) (h : y ≠ 0#w) : rem x y = .ok (x % y) :=
  barring_ok h

/-- A positive divisor is neither zero nor -1. -/
theorem remEuclid_ok (x : BitVec w) (h : 0 < y.toInt) :
    remEuclid x y = .ok (BitVec.ofInt w (x.toInt % y.toInt)) := by
  have hne : y ≠ 0#w := by
    rintro rfl
    simp at h
  rw [remEuclid, if_neg hne]
  apply barring_ok
  rintro ⟨-, hone⟩
  omega

theorem divWrapping_ok (x : BitVec w) (h : y ≠ 0#w) : divWrapping x y = .ok (x.sdiv y) :=
  barring_ok h

theorem remWrapping_ok (x : BitVec w) (h : y ≠ 0#w) : remWrapping x y = .ok (x.srem y) :=
  barring_ok h

/-- A shift by the size of the word or more has moved every bit out, so nothing is lost by
    putting zero for it. -/
theorem shiftLeft?_getD (x : BitVec w) (amount : Nat) : (shiftLeft? x amount).getD 0#w = x <<< amount := by
  rw [shiftLeft?]
  split
  case isTrue h => exact (BitVec.shiftLeft_eq_zero h).symm
  case isFalse => rfl

theorem shiftRight?_getD (x : BitVec w) (amount : Nat) : (shiftRight? x amount).getD 0#w = x >>> amount := by
  rw [shiftRight?]
  split
  case isTrue h => exact (BitVec.ushiftRight_eq_zero h).symm
  case isFalse => rfl

end Checked

end RiscvSemantics
