import Mathlib.Tactic.Linarith
import RiscvSemantics.Proofs.Bits.Integer
import RiscvSemantics.Proofs.Stored.Basic

namespace RiscvSemantics.Stored

/-- Looks at the widths first. -/
def combine (combination : Combination) (f : Stored → Stored → Checked Stored) (s t : Stored) :
    Checked Stored :=
  if s.width = t.width then f s t
  else .error (.fault (.unequalWidths combination s.width.toNat t.width.toNat))

def compare (f : Stored → Stored → Checked Bool) : Stored → Stored → Checked Stored :=
  combine .comparison fun s t => do
    let answer ← f s t
    ofBool answer

/-- Works on the words as they are. -/
def onWords (f : BitVec 64 → BitVec 64 → BitVec 64) (s t : Stored) : Checked Stored :=
  new s.width (f s.bits t.bits)

/-- Works on the signed values. -/
def onSigned (f : BitVec 64 → BitVec 64 → Checked (BitVec 64)) (s t : Stored) : Checked Stored := do
  let x ← s.signed
  let y ← t.signed
  let value ← f x y
  ofSigned s.width value

def and : Stored → Stored → Checked Stored :=
  combine .conjunction (onWords fun x y => x &&& y)

def or : Stored → Stored → Checked Stored :=
  combine .disjunction (onWords fun x y => x ||| y)

def xor : Stored → Stored → Checked Stored :=
  combine .exclusion (onWords fun x y => x ^^^ y)

def add : Stored → Stored → Checked Stored :=
  combine .addition (onWords fun x y => x + y)

def sub : Stored → Stored → Checked Stored :=
  combine .subtraction (onWords fun x y => x - y)

def mul : Stored → Stored → Checked Stored :=
  combine .multiplication (onWords fun x y => x * y)

/-- The high half of the product of two double words with a sign. -/
def highSigned (width : BitVec 32) (x y : BitVec 128) : Checked Stored := do
  let product ← Checked.mulSigned x y
  let high ← Checked.shiftRightSigned product width.toNat
  new width (high.setWidth 64)

/-- The high half of the product of two double words without a sign. -/
def highUnsigned (width : BitVec 32) (x y : BitVec 128) : Checked Stored := do
  let product ← Checked.mul x y
  let high ← Checked.shiftRight product width.toNat
  new width (high.setWidth 64)

def mulHighSigned : Stored → Stored → Checked Stored :=
  combine .multiplication fun s t => do
    let x ← s.signed
    let y ← t.signed
    highSigned s.width (x.signExtend 128) (y.signExtend 128)

def mulHighUnsigned : Stored → Stored → Checked Stored :=
  combine .multiplication fun s t =>
    highUnsigned s.width (s.bits.setWidth 128) (t.bits.setWidth 128)

def mulHighSignedUnsigned : Stored → Stored → Checked Stored :=
  combine .multiplication fun s t => do
    let x ← s.signed
    highSigned s.width (x.signExtend 128) (t.bits.setWidth 128)

def divUnsigned : Stored → Stored → Checked Stored :=
  combine .division fun s t =>
    match Checked.div? s.bits t.bits with
    | some quotient => new s.width quotient
    | none => allOnes s.width

def divSigned : Stored → Stored → Checked Stored :=
  combine .division fun s t =>
    if t.bits = 0#64 then allOnes s.width else onSigned Checked.divWrapping s t

/-- The dividend itself is given back when the divisor is zero, as it is. -/
def remUnsigned : Stored → Stored → Checked Stored :=
  combine .remainder fun s t =>
    match Checked.rem? s.bits t.bits with
    | some remainder => new s.width remainder
    | none => .ok s

def remSigned : Stored → Stored → Checked Stored :=
  combine .remainder fun s t =>
    if t.bits = 0#64 then .ok s else onSigned Checked.remWrapping s t

def equal : Stored → Stored → Checked Stored :=
  compare fun s t => .ok (s.bits == t.bits)

def lessUnsigned : Stored → Stored → Checked Stored :=
  compare fun s t => .ok (s.bits.ult t.bits)

def lessSigned : Stored → Stored → Checked Stored :=
  compare fun s t => do
    let x ← s.signed
    let y ← t.signed
    return x.slt y

def not (s : Stored) : Checked Stored :=
  new s.width (~~~s.bits)

def neg (s : Stored) : Checked Stored :=
  new s.width (-s.bits)

/-- A function on words computes one that there is for every width. -/
def Computes (f : Stored → Stored → Checked Stored) (g : {w : Nat} → BitVec w → BitVec w → BitVec w) : Prop :=
  ∀ {w : Nat} (hw : w ≤ 64) (x y : BitVec w),
    f (of ⟨w, x, hw⟩) (of ⟨w, y, hw⟩) = .ok (of ⟨w, g x y, hw⟩)

/-- As `Computes`, for an answer that is true or false. -/
def Decides (f : Stored → Stored → Checked Bool) (g : {w : Nat} → BitVec w → BitVec w → Bool) : Prop :=
  ∀ {w : Nat} (hw : w ≤ 64) (x y : BitVec w), f (of ⟨w, x, hw⟩) (of ⟨w, y, hw⟩) = .ok (g x y)

theorem combine_same (combination : Combination) (f : Stored → Stored → Checked Stored) {w : Nat}
    (x y : BitVec w) (hw : w ≤ 64) :
    combine combination f (of ⟨w, x, hw⟩) (of ⟨w, y, hw⟩) = f (of ⟨w, x, hw⟩) (of ⟨w, y, hw⟩) :=
  if_pos rfl

theorem combine_of_ne (combination : Combination) (f : Stored → Stored → Checked Stored) {a b : Bits}
    (h : a.width ≠ b.width) :
    combine combination f (of a) (of b) = .error (.fault (.unequalWidths combination a.width b.width)) := by
  have hne : (of a).width ≠ (of b).width := by
    rw [Ne, ← BitVec.toNat_inj, of, of, toNat_width a.width_le, toNat_width b.width_le]
    exact h
  rw [combine, if_neg hne, of, of, toNat_width a.width_le, toNat_width b.width_le]

theorem combine_of (combination : Combination) {f : Stored → Stored → Checked Stored}
    (g : {w : Nat} → BitVec w → BitVec w → BitVec w) (hf : Computes f g) (a b : Bits) :
    combine combination f (of a) (of b) = embed (Bits.combine combination g a b) := by
  by_cases h : a.width = b.width
  · obtain ⟨w, x, hw⟩ := a
    obtain ⟨_, y, _⟩ := b
    obtain rfl : w = _ := h
    rw [combine_same, hf hw, Bits.combine_mk]
    rfl
  · rw [combine_of_ne combination f h, Bits.combine, dif_neg h]
    rfl

theorem compare_of {f : Stored → Stored → Checked Bool} (g : {w : Nat} → BitVec w → BitVec w → Bool)
    (hf : Decides f g) (a b : Bits) : compare f (of a) (of b) = embed (Bits.compare g a b) := by
  by_cases h : a.width = b.width
  · obtain ⟨w, x, hw⟩ := a
    obtain ⟨_, y, _⟩ := b
    obtain rfl : w = _ := h
    rw [compare, combine_same, hf hw, Bits.compare_mk, Checked.ok_bind, ofBool_eq]
    rfl
  · rw [compare, combine_of_ne _ _ h, Bits.compare, dif_neg h]
    rfl

theorem wordwise_of (combination : Combination) (f : BitVec 64 → BitVec 64 → BitVec 64)
    (g : {w : Nat} → BitVec w → BitVec w → BitVec w)
    (hf : ∀ {w : Nat} (_ : w ≤ 64) (x y : BitVec w), (f (x.setWidth 64) (y.setWidth 64)).setWidth w = g x y)
    (a b : Bits) :
    combine combination (onWords f) (of a) (of b) = embed (Bits.combine combination g a b) := by
  refine combine_of combination g ?_ a b
  intro w hw x y
  rw [onWords, of, of, new_width hw, hf hw]

theorem and_of (a b : Bits) : (of a).and (of b) = embed (a.and b) := by
  refine wordwise_of .conjunction _ (fun x y => x &&& y) ?_ a b
  intro w hw x y
  rw [BitVec.setWidth_and, setWidth_word hw, setWidth_word hw]

theorem or_of (a b : Bits) : (of a).or (of b) = embed (a.or b) := by
  refine wordwise_of .disjunction _ (fun x y => x ||| y) ?_ a b
  intro w hw x y
  rw [BitVec.setWidth_or, setWidth_word hw, setWidth_word hw]

theorem xor_of (a b : Bits) : (of a).xor (of b) = embed (a.xor b) := by
  refine wordwise_of .exclusion _ (fun x y => x ^^^ y) ?_ a b
  intro w hw x y
  rw [BitVec.setWidth_xor, setWidth_word hw, setWidth_word hw]

theorem add_of (a b : Bits) : (of a).add (of b) = embed (a.add b) := by
  refine wordwise_of .addition _ (fun x y => x + y) ?_ a b
  intro w hw x y
  rw [BitVec.setWidth_add _ _ hw, setWidth_word hw, setWidth_word hw]

theorem sub_of (a b : Bits) : (of a).sub (of b) = embed (a.sub b) := by
  refine wordwise_of .subtraction _ (fun x y => x - y) ?_ a b
  intro w hw x y
  rw [BitVec.sub_eq_add_neg, BitVec.setWidth_add _ _ hw, BitVec.setWidth_neg_of_le hw, setWidth_word hw,
    setWidth_word hw, BitVec.sub_eq_add_neg]

theorem mul_of (a b : Bits) : (of a).mul (of b) = embed (a.mul b) := by
  refine wordwise_of .multiplication _ (fun x y => x * y) ?_ a b
  intro w hw x y
  rw [BitVec.setWidth_mul _ _ hw, setWidth_word hw, setWidth_word hw]

section Products

variable {w : Nat} (hw : w ≤ 64) {x y : BitVec 128}
include hw

/-- A product of a signed number of 64 bits and a number of 64 bits, signed or not, has 128 bits. -/
theorem highSigned_width {i j : Int} (hx : x.toInt = i) (hy : y.toInt = j) (hi : -2 ^ 63 ≤ i ∧ i < 2 ^ 63)
    (hj : -2 ^ 63 ≤ j ∧ j < 2 ^ 64) :
    highSigned (BitVec.ofNat 32 w) x y = .ok (of ⟨w, Bits.highHalf w (i * j), hw⟩) := by
  subst hx hy
  -- -2 ^ 63 times 2 ^ 64 - 1 is the least that there can be
  have hlow : -2 ^ 127 ≤ x.toInt * y.toInt := by nlinarith
  have hhigh : x.toInt * y.toInt < 2 ^ 127 := by nlinarith
  have hproduct : (x * y).toInt = x.toInt * y.toInt := by
    rw [Bits.mul_eq_ofInt, BitVec.toInt_ofInt_eq_self (by omega) hlow hhigh]
  rw [highSigned, Checked.mulSigned_ok hlow hhigh, Checked.ok_bind, toNat_width hw,
    Checked.shiftRightSigned_ok _ (by omega), Checked.ok_bind, new_width hw, Bits.sshiftRight_eq_ofInt,
    hproduct, Bits.setWidth_ofInt (by omega), Bits.setWidth_ofInt hw, Bits.highHalf_eq_ofInt]

theorem highUnsigned_width {m n : Nat} (hx : x.toNat = m) (hy : y.toNat = n) (hm : m < 2 ^ 64)
    (hn : n < 2 ^ 64) :
    highUnsigned (BitVec.ofNat 32 w) x y = .ok (of ⟨w, Bits.highHalf w (m * n), hw⟩) := by
  subst hx hy
  have hfits : x.toNat * y.toNat < 2 ^ 128 := calc
    x.toNat * y.toNat < 2 ^ 64 * 2 ^ 64 := Nat.mul_lt_mul'' hm hn
    _ = 2 ^ 128 := (Nat.pow_add 2 64 64).symm
  have hproduct : (x * y).toNat = x.toNat * y.toNat := by
    rw [BitVec.toNat_mul, Nat.mod_eq_of_lt hfits]
  rw [highUnsigned, Checked.mul_ok hfits, Checked.ok_bind, toNat_width hw,
    Checked.shiftRight_ok _ (by omega), Checked.ok_bind, new_width hw, Bits.shiftRight_eq_ofInt,
    hproduct, Bits.setWidth_ofInt (by omega), Bits.setWidth_ofInt hw, Bits.highHalf_eq_ofInt, Int.natCast_mul]

end Products

section Doubled

variable {w : Nat} (hw : w ≤ 64) (x : BitVec w)
include hw

theorem toInt_signed_double : ((x.signExtend 64).signExtend 128).toInt = x.toInt := by
  rw [BitVec.toInt_signExtend_of_le (by decide), BitVec.toInt_signExtend_of_le hw]

theorem toInt_signed_bounds : -2 ^ 63 ≤ x.toInt ∧ x.toInt < 2 ^ 63 := by
  rw [← BitVec.toInt_signExtend_of_le hw]
  exact ⟨BitVec.le_toInt _, BitVec.toInt_lt⟩

theorem toNat_double : ((x.setWidth 64).setWidth 128).toNat = x.toNat := by
  rw [BitVec.toNat_setWidth_of_le (by decide), BitVec.toNat_setWidth_of_le hw]

theorem toNat_lt_word : x.toNat < 2 ^ 64 := by
  rw [← BitVec.toNat_setWidth_of_le hw]
  exact BitVec.isLt _

theorem toInt_double : ((x.setWidth 64).setWidth 128).toInt = x.toNat := by
  have hlt := toNat_lt_word hw x
  rw [BitVec.toInt_eq_toNat_of_lt, toNat_double hw]
  rw [toNat_double hw]
  omega

end Doubled

theorem mulHighSigned_of (a b : Bits) : (of a).mulHighSigned (of b) = embed (a.mulHighSigned b) := by
  refine combine_of .multiplication (fun x y => Bits.highHalf _ (x.toInt * y.toInt)) ?_ a b
  intro w hw x y
  have hx := toInt_signed_bounds hw x
  have hy := toInt_signed_bounds hw y
  simp only [signed_of, Checked.ok_bind]
  exact highSigned_width hw (toInt_signed_double hw x) (toInt_signed_double hw y) hx (by omega)

theorem mulHighUnsigned_of (a b : Bits) : (of a).mulHighUnsigned (of b) = embed (a.mulHighUnsigned b) := by
  refine combine_of .multiplication (fun x y => Bits.highHalf _ (x.toNat * y.toNat)) ?_ a b
  intro w hw x y
  have hx := toNat_lt_word hw x
  have hy := toNat_lt_word hw y
  exact highUnsigned_width hw (toNat_double hw x) (toNat_double hw y) hx hy

theorem mulHighSignedUnsigned_of (a b : Bits) :
    (of a).mulHighSignedUnsigned (of b) = embed (a.mulHighSignedUnsigned b) := by
  refine combine_of .multiplication (fun x y => Bits.highHalf _ (x.toInt * y.toNat)) ?_ a b
  intro w hw x y
  have hx := toInt_signed_bounds hw x
  have hy := toNat_lt_word hw y
  simp only [signed_of, Checked.ok_bind]
  exact highSigned_width hw (toInt_signed_double hw x) (toInt_double hw y) hx (by omega)

/-- What two signed values give is cut to the width. -/
theorem onSigned_width {f : BitVec 64 → BitVec 64 → Checked (BitVec 64)} {w : Nat} (hw : w ≤ 64)
    {x y : BitVec w} {i : Int} (hf : f (x.signExtend 64) (y.signExtend 64) = .ok (BitVec.ofInt 64 i)) :
    onSigned f (of ⟨w, x, hw⟩) (of ⟨w, y, hw⟩) = .ok (of ⟨w, BitVec.ofInt w i, hw⟩) := by
  rw [onSigned, signed_of, Checked.ok_bind, signed_of, Checked.ok_bind, hf, Checked.ok_bind, ofSigned, of,
    new_width hw, Bits.setWidth_ofInt hw]

theorem bits_zero {w : Nat} (hw : w ≤ 64) : (of ⟨w, 0#w, hw⟩).bits = 0#64 :=
  BitVec.setWidth_zero ..

theorem toNat_ne_zero {w : Nat} {y : BitVec w} (hy : y ≠ 0#w) : y.toNat ≠ 0 := by
  intro h
  exact hy (BitVec.eq_of_toNat_eq (h.trans BitVec.toNat_zero.symm))

section Divisors

variable {w : Nat} (hw : w ≤ 64) (x : BitVec w) {y : BitVec w} (hy : y ≠ 0#w)
include hw hy

theorem word_ne_zero : y.setWidth 64 ≠ 0#64 := by
  intro h
  have hword := setWidth_word hw y
  rw [h, BitVec.setWidth_zero] at hword
  exact hy hword.symm

theorem signed_ne_zero : y.signExtend 64 ≠ 0#64 := by
  intro h
  have hint := BitVec.toInt_signExtend_of_le (x := y) hw
  rw [h, BitVec.toInt_zero, ← BitVec.toInt_zero (w := w)] at hint
  exact hy (BitVec.eq_of_toInt_eq hint.symm)

theorem onSigned_divWrapping :
    onSigned Checked.divWrapping (of ⟨w, x, hw⟩) (of ⟨w, y, hw⟩) = .ok (of ⟨w, x.sdiv y, hw⟩) := by
  rw [Bits.sdiv_eq_ofInt]
  apply onSigned_width hw
  rw [Checked.divWrapping_ok _ (signed_ne_zero hw hy), Bits.sdiv_eq_ofInt,
    BitVec.toInt_signExtend_of_le hw, BitVec.toInt_signExtend_of_le hw]

theorem onSigned_remWrapping :
    onSigned Checked.remWrapping (of ⟨w, x, hw⟩) (of ⟨w, y, hw⟩) = .ok (of ⟨w, x.srem y, hw⟩) := by
  rw [Bits.srem_eq_ofInt]
  apply onSigned_width hw
  rw [Checked.remWrapping_ok _ (signed_ne_zero hw hy), Bits.srem_eq_ofInt,
    BitVec.toInt_signExtend_of_le hw, BitVec.toInt_signExtend_of_le hw]

end Divisors

theorem divUnsigned_of (a b : Bits) : (of a).divUnsigned (of b) = embed (a.divUnsigned b) := by
  refine combine_of .division (fun x y => if y.toNat = 0 then BitVec.allOnes _ else x / y) ?_ a b
  intro w hw x y
  by_cases hy : y = 0#w
  · subst hy
    have hnone : Checked.div? (of ⟨w, x, hw⟩).bits (of ⟨w, 0#w, hw⟩).bits = none := if_pos (bits_zero hw)
    simp only [hnone, BitVec.toNat_zero, if_true]
    exact allOnes_width hw
  · have hsome : Checked.div? (of ⟨w, x, hw⟩).bits (of ⟨w, y, hw⟩).bits =
        some (x.setWidth 64 / y.setWidth 64) := if_neg (word_ne_zero hw hy)
    have hquotient : (x.setWidth 64 / y.setWidth 64).setWidth w = x / y := by
      rw [Bits.udiv_eq_ofInt, Bits.setWidth_ofInt hw, BitVec.toNat_setWidth_of_le hw,
        BitVec.toNat_setWidth_of_le hw, ← Bits.udiv_eq_ofInt]
    simp only [hsome, if_neg (toNat_ne_zero hy), ← hquotient]
    exact new_width hw _

theorem divSigned_of (a b : Bits) : (of a).divSigned (of b) = embed (a.divSigned b) := by
  refine combine_of .division (fun x y => if y.toNat = 0 then BitVec.allOnes _ else x.sdiv y) ?_ a b
  intro w hw x y
  by_cases hy : y = 0#w
  · subst hy
    simp only [if_pos (bits_zero hw), BitVec.toNat_zero, if_true]
    exact allOnes_width hw
  · have hword : (of ⟨w, y, hw⟩).bits ≠ 0#64 := word_ne_zero hw hy
    simp only [if_neg hword, if_neg (toNat_ne_zero hy)]
    exact onSigned_divWrapping hw x hy

theorem remUnsigned_of (a b : Bits) : (of a).remUnsigned (of b) = embed (a.remUnsigned b) := by
  refine combine_of .remainder (fun x y => x % y) ?_ a b
  intro w hw x y
  by_cases hy : y = 0#w
  · subst hy
    have hnone : Checked.rem? (of ⟨w, x, hw⟩).bits (of ⟨w, 0#w, hw⟩).bits = none := if_pos (bits_zero hw)
    simp only [hnone, BitVec.umod_zero]
  · have hsome : Checked.rem? (of ⟨w, x, hw⟩).bits (of ⟨w, y, hw⟩).bits =
        some (x.setWidth 64 % y.setWidth 64) := if_neg (word_ne_zero hw hy)
    have hremainder : (x.setWidth 64 % y.setWidth 64).setWidth w = x % y := by
      rw [Bits.umod_eq_ofInt, Bits.setWidth_ofInt hw, BitVec.toNat_setWidth_of_le hw,
        BitVec.toNat_setWidth_of_le hw, ← Bits.umod_eq_ofInt]
    simp only [hsome, ← hremainder]
    exact new_width hw _

theorem remSigned_of (a b : Bits) : (of a).remSigned (of b) = embed (a.remSigned b) := by
  refine combine_of .remainder (fun x y => x.srem y) ?_ a b
  intro w hw x y
  by_cases hy : y = 0#w
  · subst hy
    simp only [if_pos (bits_zero hw), BitVec.srem_zero]
  · have hword : (of ⟨w, y, hw⟩).bits ≠ 0#64 := word_ne_zero hw hy
    simp only [if_neg hword]
    exact onSigned_remWrapping hw x hy

theorem equal_of (a b : Bits) : (of a).equal (of b) = embed (a.equal b) := by
  refine compare_of (fun x y => x == y) ?_ a b
  intro w hw x y
  have hsame : x.setWidth 64 = y.setWidth 64 ↔ x = y := by
    rw [← BitVec.toNat_inj, BitVec.toNat_setWidth_of_le hw, BitVec.toNat_setWidth_of_le hw, BitVec.toNat_inj]
  exact congrArg Except.ok (decide_eq_decide.mpr hsame)

theorem lessUnsigned_of (a b : Bits) : (of a).lessUnsigned (of b) = embed (a.lessUnsigned b) := by
  refine compare_of (fun x y => x.ult y) ?_ a b
  intro w hw x y
  simp only [of, BitVec.ult, BitVec.toNat_setWidth_of_le hw]

theorem lessSigned_of (a b : Bits) : (of a).lessSigned (of b) = embed (a.lessSigned b) := by
  refine compare_of (fun x y => x.slt y) ?_ a b
  intro w hw x y
  simp only [signed_of, Checked.ok_bind, BitVec.slt, BitVec.toInt_signExtend_of_le hw]
  rfl

theorem not_of (a : Bits) : (of a).not = .ok (of a.not) := by
  rw [not, of, new_width a.width_le, BitVec.setWidth_not a.width_le, setWidth_word a.width_le]
  rfl

theorem neg_of (a : Bits) : (of a).neg = .ok (of a.neg) := by
  rw [neg, of, new_width a.width_le, BitVec.setWidth_neg_of_le a.width_le, setWidth_word a.width_le]
  rfl

end RiscvSemantics.Stored
