import RiscvSemantics.Proofs.Stored.Chain

namespace RiscvSemantics

open Stored (of Yields)

/-- The operators on two vectors for which no bit of the result depends on higher bits. -/
inductive LowBitsOp where
  | and | or | xor
  | add | sub | mul

namespace LowBitsOp

def op : LowBitsOp → BinaryOp
  | .and => .and
  | .or => .or
  | .xor => .xor
  | .add => .add
  | .sub => .sub
  | .mul => .mul

/-- What the operator makes of bits, modulo `2 ^ w`. -/
def compute (low : LowBitsOp) {w : Nat} (x y : BitVec w) : BitVec w :=
  match low with
  | .and => x &&& y
  | .or => x ||| y
  | .xor => x ^^^ y
  | .add => x + y
  | .sub => x - y
  | .mul => x * y

theorem setWidth_compute (low : LowBitsOp) {w v : Nat} (hle : v ≤ w) (x y : BitVec w) :
    (low.compute x y).setWidth v = low.compute (x.setWidth v) (y.setWidth v) := by
  cases low with
  | and => exact BitVec.setWidth_and
  | or => exact BitVec.setWidth_or
  | xor => exact BitVec.setWidth_xor
  | add => exact BitVec.setWidth_add x y hle
  | sub =>
    simp only [compute, BitVec.sub_eq_add_neg]
    rw [BitVec.setWidth_add _ _ hle, BitVec.setWidth_neg_of_le hle]
  | mul => exact BitVec.setWidth_mul x y hle

theorem yields_compute (low : LowBitsOp) {w : Nat} (hw : w ≤ 64) (x y : BitVec w) :
    Yields (Stored.binary low.op (of ⟨w, x, hw⟩) (of ⟨w, y, hw⟩))
      (low.op.apply ⟨w, x, hw⟩ ⟨w, y, hw⟩) ⟨w, low.compute x y, hw⟩ := by
  apply Yields.of_embed (Stored.binary_of ..)
  cases low with
  | and | or | xor | add | sub | mul => exact dif_pos rfl

end LowBitsOp

namespace UnaryOp

/-- What the operator makes of bits. -/
def compute (op : UnaryOp) {w : Nat} (x : BitVec w) : BitVec w :=
  match op with
  | .not => ~~~x
  | .neg => -x

theorem setWidth_compute (op : UnaryOp) {w v : Nat} (hle : v ≤ w) (x : BitVec w) :
    (op.compute x).setWidth v = op.compute (x.setWidth v) := by
  cases op with
  | not => exact BitVec.setWidth_not hle
  | neg => exact BitVec.setWidth_neg_of_le hle

theorem yields_compute (op : UnaryOp) {w : Nat} (hw : w ≤ 64) (x : BitVec w) :
    Yields (Stored.unary op (of ⟨w, x, hw⟩)) (.ok (op.apply ⟨w, x, hw⟩)) ⟨w, op.compute x, hw⟩ := by
  refine ⟨(Stored.unary_of ..).trans ?_, ?_⟩
  all_goals cases op with
  | not | neg => rfl

end UnaryOp

namespace Bits

theorem yields_shiftLeft {w : Nat} (hw : w ≤ 64) (x : BitVec w) (amount : BitVec 64) :
    Yields ((of ⟨w, x, hw⟩).shiftLeft amount) (.ok (shiftLeft ⟨w, x, hw⟩ amount.toNat))
      ⟨w, x <<< amount.toNat, hw⟩ := by
  have hshift := shiftLeft_eq ⟨w, x, hw⟩ amount.toNat
  refine ⟨?_, congrArg Except.ok hshift⟩
  rw [Stored.shiftLeft_of, hshift]

/-- The vector `whole` is the low bits of a word, and `part` is the low bits of `whole`. -/
structure CutFrom (word : BitVec 64) (whole part : Bits) : Prop where
  modulo : whole.toNat = word.toNat % 2 ^ whole.width
  truncate : Yields ((of whole).truncate (of part).width) (whole.truncate part.width) part

theorem cutFrom_of {w v : Nat} (hle : v ≤ w) (hw : w ≤ 64) (hv : v ≤ 64) (word : BitVec 64) :
    CutFrom word ⟨w, word.setWidth w, hw⟩ ⟨v, (word.setWidth w).setWidth v, hv⟩ where
  modulo := BitVec.toNat_setWidth ..
  truncate := Stored.yields_truncate hle hw hv (word.setWidth w)

/-- For vectors `a` and `b`, of which `c` and `d` are the low bits, it makes no difference whether an
    operation comes before or after cutting off bits: as words, and then to the width of `a` and `b`,
    and from there to that of `c` and `d`. -/
structure Truncates (a b c d : Bits) : Prop where
  binary : ∀ low : LowBitsOp, ∃ whole part,
    Yields (Stored.binary low.op (of a) (of b)) (low.op.apply a b) whole ∧
    Yields (Stored.binary low.op (of c) (of d)) (low.op.apply c d) part ∧
    CutFrom (low.compute (of a).bits (of b).bits) whole part ∧ whole.width = a.width ∧ part.width = c.width
  unary : ∀ op : UnaryOp, ∃ whole part,
    Yields (Stored.unary op (of a)) (.ok (op.apply a)) whole ∧
    Yields (Stored.unary op (of c)) (.ok (op.apply c)) part ∧
    CutFrom (op.compute (of a).bits) whole part ∧ whole.width = a.width ∧ part.width = c.width
  /-- An amount from the width of `c` up to that of `a` moves every bit out of `c` only. -/
  shiftLeft : ∀ amount : BitVec 64, ∃ whole part,
    Yields ((of a).shiftLeft amount) (.ok (a.shiftLeft amount.toNat)) whole ∧
    Yields ((of c).shiftLeft amount) (.ok (c.shiftLeft amount.toNat)) part ∧
    CutFrom ((of a).bits <<< amount.toNat) whole part ∧ whole.width = a.width ∧ part.width = c.width

theorem truncates_of {w v : Nat} (hle : v ≤ w) (hw : w ≤ 64) (hv : v ≤ 64) (x y : BitVec w) :
    Truncates ⟨w, x, hw⟩ ⟨w, y, hw⟩ ⟨v, x.setWidth v, hv⟩ ⟨v, y.setWidth v, hv⟩ := by
  constructor
  case binary =>
    intro low
    have hcut := cutFrom_of hle hw hv (low.compute (x.setWidth 64) (y.setWidth 64))
    rw [low.setWidth_compute hw, Stored.setWidth_word hw, Stored.setWidth_word hw,
      low.setWidth_compute hle] at hcut
    exact ⟨_, _, low.yields_compute hw x y, low.yields_compute hv _ _, hcut, rfl, rfl⟩
  case unary =>
    intro op
    have hcut := cutFrom_of hle hw hv (op.compute (x.setWidth 64))
    rw [op.setWidth_compute hw, Stored.setWidth_word hw, op.setWidth_compute hle] at hcut
    exact ⟨_, _, op.yields_compute hw x, op.yields_compute hv _, hcut, rfl, rfl⟩
  case shiftLeft =>
    intro amount
    have hcut := cutFrom_of hle hw hv (x.setWidth 64 <<< amount.toNat)
    rw [BitVec.setWidth_shiftLeft_of_le hw, Stored.setWidth_word hw,
      BitVec.setWidth_shiftLeft_of_le hle] at hcut
    exact ⟨_, _, yields_shiftLeft hw x amount, yields_shiftLeft hv _ amount, hcut, rfl, rfl⟩

/-- The two's complement is one more than all bits flipped, and what is left when a vector is taken
    from zero. -/
def Complements (a : Bits) : Prop :=
  ∃ zero one negative,
    Yields (Stored.zero (of a).width) (Bits.zero a.width) zero ∧
    Yields (Stored.new (of a).width 1#64) (ofNat a.width 1) one ∧
    Yields (of a).neg (.ok a.neg) negative ∧
    Yields ((of a).not >>= fun flipped => flipped.add (of one)) (a.not.add one) negative ∧
    Yields ((of zero).sub (of a)) (zero.sub a) negative

theorem complements (a : Bits) : a.Complements := by
  obtain ⟨w, x, hw⟩ := a
  have hone : (1#64).setWidth w = 1#w := BitVec.setWidth_ofNat_of_le hw 1
  have hsum : ~~~x + 1#w = -x := (BitVec.neg_eq_not_add x).symm
  have hdifference : 0#w - x = -x := BitVec.zero_sub x
  refine ⟨⟨w, 0#w, hw⟩, ⟨w, 1#w, hw⟩, ⟨w, -x, hw⟩, ⟨?_, dif_pos hw⟩, ⟨?_, dif_pos hw⟩,
    UnaryOp.neg.yields_compute hw x, ?_, ?_⟩
  · rw [Stored.zero, of, Stored.new_width hw, BitVec.setWidth_zero]
  · rw [of, Stored.new_width hw, hone]
  · have hadd := LowBitsOp.add.yields_compute hw (~~~x) 1#w
    rw [LowBitsOp.compute, hsum] at hadd
    exact Yields.bind (g := fun flipped => flipped.add ⟨w, 1#w, hw⟩) (UnaryOp.not.yields_compute hw x) hadd
  · have hsub := LowBitsOp.sub.yields_compute hw 0#w x
    rwa [LowBitsOp.compute, hdifference] at hsub

/-- Conjunction, disjunction, exclusion, sum, difference, product, negation, flipping and shifts to the
    left go on low bits as they go on all bits, down from words of 64 bits to every width. -/
theorem truncation_commutes (a b : Bits) (hwidth : a.width = b.width) {narrow : Nat}
    (hnarrow : narrow ≤ a.width) :
    a.Complements ∧ ∃ c d, c.width = narrow ∧
      Yields ((of a).truncate (BitVec.ofNat 32 narrow)) (a.truncate narrow) c ∧
      Yields ((of b).truncate (BitVec.ofNat 32 narrow)) (b.truncate narrow) d ∧
      Truncates a b c d := by
  refine ⟨a.complements, ?_⟩
  obtain ⟨w, x, hw⟩ := a
  obtain ⟨v, y, hv⟩ := b
  obtain rfl : w = v := hwidth
  have hfits : narrow ≤ 64 := Nat.le_trans hnarrow hw
  exact ⟨_, _, rfl, Stored.yields_truncate hnarrow hw hfits x, Stored.yields_truncate hnarrow hw hfits y,
    truncates_of hnarrow hw hfits x y⟩

/-- 200 and 100 in eight bits, cut to four, and shifts by six, which is too far for those alone. -/
theorem truncation_commutes_byte :
    let a : Bits := ⟨8, 200#8, by decide⟩
    let b : Bits := ⟨8, 100#8, by decide⟩
    a.width = b.width ∧ 4 ≤ a.width ∧ ∃ c d,
      Yields ((of a).truncate 4#32) (a.truncate 4) c ∧ Yields ((of b).truncate 4#32) (b.truncate 4) d ∧
      (∃ whole part, Yields ((of a).mul (of b)) (a.mul b) whole ∧ Yields ((of c).mul (of d)) (c.mul d) part ∧
        Yields ((of whole).truncate (of part).width) (whole.truncate part.width) part) ∧
      ∃ whole part, Yields ((of a).shiftLeft 6#64) (.ok (a.shiftLeft 6)) whole ∧
        Yields ((of c).shiftLeft 6#64) (.ok (c.shiftLeft 6)) part ∧
        Yields ((of whole).truncate (of part).width) (whole.truncate part.width) part := by
  intro a b
  have hwidth : a.width = b.width := rfl
  have hnarrow : 4 ≤ a.width := by decide
  obtain ⟨-, c, d, -, hc, hd, htruncates⟩ := truncation_commutes a b hwidth hnarrow
  obtain ⟨product, low, hproduct, hlow, hcut, -, -⟩ := htruncates.binary .mul
  obtain ⟨whole, part, hwhole, hpart, hshift, -, -⟩ := htruncates.shiftLeft 6#64
  exact ⟨hwidth, hnarrow, c, d, hc, hd, ⟨product, low, hproduct, hlow, hcut.truncate⟩, whole, part, hwhole,
    hpart, hshift.truncate⟩

end Bits
end RiscvSemantics
