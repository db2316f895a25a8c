import RiscvSemantics.Bits.Basic

namespace RiscvSemantics.Bits

/-- Combines two vectors of one width into a third of that width. -/
def combine (combination : Combination) (f : {w : Nat} → BitVec w → BitVec w → BitVec w) (a b : Bits) :
    Except Fault Bits :=
  if h : a.width = b.width then
    .ok ⟨a.width, f a.value (b.value.cast h.symm), a.width_le⟩
  else
    .error (.unequalWidths combination a.width b.width)

/-- Compares two vectors of one width; the answer is one bit. -/
def compare (f : {w : Nat} → BitVec w → BitVec w → Bool) (a b : Bits) : Except Fault Bits :=
  if h : a.width = b.width then
    .ok (ofBool (f a.value (b.value.cast h.symm)))
  else
    .error (.unequalWidths .comparison a.width b.width)

def and : Bits → Bits → Except Fault Bits :=
  combine .conjunction fun x y => x &&& y

def or : Bits → Bits → Except Fault Bits :=
  combine .disjunction fun x y => x ||| y

def xor : Bits → Bits → Except Fault Bits :=
  combine .exclusion fun x y => x ^^^ y

def add : Bits → Bits → Except Fault Bits :=
  combine .addition fun x y => x + y

def sub : Bits → Bits → Except Fault Bits :=
  combine .subtraction fun x y => x - y

/-- The low half of the product. -/
def mul : Bits → Bits → Except Fault Bits :=
  combine .multiplication fun x y => x * y

/-- The bits of an integer from position `w` up, which are the high half of a
    product of two `w`-bit numbers. -/
def highHalf (w : Nat) (product : Int) : BitVec w :=
  BitVec.ofInt w (product >>> w)

/-- The high half of the product of two signed numbers. -/
def mulHighSigned : Bits → Bits → Except Fault Bits :=
  combine .multiplication fun x y => highHalf _ (x.toInt * y.toInt)

/-- The high half of the product of two unsigned numbers. -/
def mulHighUnsigned : Bits → Bits → Except Fault Bits :=
  combine .multiplication fun x y => highHalf _ (x.toNat * y.toNat)

/-- The high half of the product of a signed number on the left and an unsigned
    one on the right. -/
def mulHighSignedUnsigned : Bits → Bits → Except Fault Bits :=
  combine .multiplication fun x y => highHalf _ (x.toInt * y.toNat)

/-- The unsigned quotient; all ones when the divisor is zero. -/
def divUnsigned : Bits → Bits → Except Fault Bits :=
  combine .division fun x y => if y.toNat = 0 then BitVec.allOnes _ else x / y

/-- The quotient rounded toward zero; all ones, which is -1, when the divisor is
    zero. The least value divided by -1 is itself. -/
def divSigned : Bits → Bits → Except Fault Bits :=
  combine .division fun x y => if y.toNat = 0 then BitVec.allOnes _ else x.sdiv y

/-- The unsigned remainder; the dividend when the divisor is zero. -/
def remUnsigned : Bits → Bits → Except Fault Bits :=
  combine .remainder fun x y => x % y

/-- The remainder with the sign of the dividend, which it is when the divisor is
    zero. -/
def remSigned : Bits → Bits → Except Fault Bits :=
  combine .remainder fun x y => x.srem y

def equal : Bits → Bits → Except Fault Bits :=
  compare fun x y => x == y

def lessUnsigned : Bits → Bits → Except Fault Bits :=
  compare fun x y => x.ult y

def lessSigned : Bits → Bits → Except Fault Bits :=
  compare fun x y => x.slt y

/-- Every bit flipped. -/
def not (a : Bits) : Bits :=
  ⟨a.width, ~~~a.value, a.width_le⟩

/-- The two's complement. -/
def neg (a : Bits) : Bits :=
  ⟨a.width, -a.value, a.width_le⟩

/-- The vector that lies `n` further on, modulo the width: how addresses advance. -/
def advance (a : Bits) (n : Nat) : Bits :=
  ⟨a.width, BitVec.ofNat a.width (a.value.toNat + n), a.width_le⟩

@[simp] theorem combine_mk (combination : Combination)
    (f : {w : Nat} → BitVec w → BitVec w → BitVec w) {w : Nat} (x y : BitVec w) (h h' : w ≤ 64) :
    combine combination f ⟨w, x, h⟩ ⟨w, y, h'⟩ = .ok ⟨w, f x y, h⟩ := by
  simp [combine]

@[simp] theorem compare_mk (f : {w : Nat} → BitVec w → BitVec w → Bool) {w : Nat} (x y : BitVec w)
    (h h' : w ≤ 64) : compare f ⟨w, x, h⟩ ⟨w, y, h'⟩ = .ok (ofBool (f x y)) := by
  simp [compare]

end RiscvSemantics.Bits
