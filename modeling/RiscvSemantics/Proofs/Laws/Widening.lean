import RiscvSemantics.Proofs.Stored.Arithmetic
import RiscvSemantics.Proofs.Stored.Slice

namespace RiscvSemantics

open Stored (of Yields)

/-- The ways to widen a vector: with zeros or with copies of the top bit. -/
inductive Widening where
  | zeros
  | sign

namespace Widening

def apply (widening : Widening) (a : Bits) (width : Nat) : Except Fault Bits :=
  match widening with
  | .zeros => a.zeroExtend width
  | .sign => a.signExtend width

def perform (widening : Widening) (s : Stored) (width : BitVec 32) : Checked Stored :=
  match widening with
  | .zeros => s.zeroExtend width
  | .sign => s.signExtend width

/-- What widening makes of the bits. -/
def widen (widening : Widening) {w : Nat} (x : BitVec w) (width : Nat) : BitVec width :=
  match widening with
  | .zeros => x.setWidth width
  | .sign => x.signExtend width

section Values

variable (widening : Widening) {w v : Nat} (hle : w ≤ v) (x y : BitVec w)
include hle

theorem toNat_widen_zeros : (zeros.widen x v).toNat = x.toNat :=
  BitVec.toNat_setWidth_of_le hle

theorem toInt_widen_sign : (sign.widen x v).toInt = x.toInt :=
  BitVec.toInt_signExtend_of_le hle

theorem setWidth_widen : (widening.widen x v).setWidth w = x := by
  cases widening with
  | zeros => rw [widen, BitVec.setWidth_setWidth_of_le x hle, BitVec.setWidth_eq]
  | sign => rw [widen, BitVec.signExtend, Bits.setWidth_ofInt hle, BitVec.ofInt_toInt]

theorem widen_widen {u : Nat} (hle' : v ≤ u) :
    widening.widen (widening.widen x v) u = widening.widen x u := by
  have htwice : w ≤ u := Nat.le_trans hle hle'
  cases widening with
  | zeros =>
    apply BitVec.eq_of_toNat_eq
    rw [toNat_widen_zeros hle', toNat_widen_zeros hle, toNat_widen_zeros htwice]
  | sign =>
    apply BitVec.eq_of_toInt_eq
    rw [toInt_widen_sign hle', toInt_widen_sign hle, toInt_widen_sign htwice]

theorem beq_widen : (widening.widen x v == widening.widen y v) = (x == y) := by
  have hsame : widening.widen x v = widening.widen y v ↔ x = y := by
    constructor
    · intro h
      rw [← widening.setWidth_widen hle x, h, widening.setWidth_widen hle y]
    · rintro rfl
      rfl
  exact decide_eq_decide.mpr hsame

theorem slt_widen_sign : (sign.widen x v).slt (sign.widen y v) = x.slt y := by
  simp only [BitVec.slt, toInt_widen_sign hle]

/-- The order without a sign is that with one, turned around between vectors that differ in the top
    bit, and widening keeps the sign. -/
theorem ult_widen_sign : (sign.widen x v).ult (sign.widen y v) = x.ult y := by
  have hmsb (z : BitVec w) : (sign.widen z v).msb = z.msb := by
    rw [BitVec.msb_eq_toInt, BitVec.msb_eq_toInt, toInt_widen_sign hle]
  have hslt := slt_widen_sign hle x y
  rw [BitVec.slt_eq_ult, BitVec.slt_eq_ult, hmsb, hmsb] at hslt
  exact Bool.xor_right_inj.mp hslt

theorem ult_widen : (widening.widen x v).ult (widening.widen y v) = x.ult y := by
  cases widening with
  | zeros => simp only [BitVec.ult, toNat_widen_zeros hle]
  | sign => exact ult_widen_sign hle x y

end Values

/-- What a widening to `middle` bits keeps of vectors `a` and `b` of one width, of which it has made
    `c` and `d`, and how it goes on from there to `wide` bits. -/
structure Keeps (widening : Widening) (a b c d : Bits) (middle wide : Nat) : Prop where
  width : c.width = middle
  unsigned : widening = .zeros → c.toNat = a.toNat
  signed : widening = .sign → c.toInt = a.toInt
  narrowed : Yields ((of c).truncate (of a).width) (c.truncate a.width) a
  widened : ∃ e,
    Yields (widening.perform (of c) (BitVec.ofNat 32 wide)) (widening.apply c wide) e ∧
    Yields (widening.perform (of a) (BitVec.ofNat 32 wide)) (widening.apply a wide) e
  equal : ∃ answer, answer = Bits.ofBool (a.toNat = b.toNat) ∧
    Yields ((of a).equal (of b)) (a.equal b) answer ∧
    Yields ((of c).equal (of d)) (c.equal d) answer
  lessUnsigned : ∃ answer, answer = Bits.ofBool (a.toNat < b.toNat) ∧
    Yields ((of a).lessUnsigned (of b)) (a.lessUnsigned b) answer ∧
    Yields ((of c).lessUnsigned (of d)) (c.lessUnsigned d) answer
  lessSigned : widening = .sign → ∃ answer, answer = Bits.ofBool (a.toInt < b.toInt) ∧
    Yields ((of a).lessSigned (of b)) (a.lessSigned b) answer ∧
    Yields ((of c).lessSigned (of d)) (c.lessSigned d) answer

section Results

variable (widening : Widening) {w v u : Nat}

theorem yields_widen (hle : w ≤ v) (hv : v ≤ 64) (hw : w ≤ 64) (x : BitVec w) :
    Yields (widening.perform (of ⟨w, x, hw⟩) (BitVec.ofNat 32 v))
      (widening.apply ⟨w, x, hw⟩ v) ⟨v, widening.widen x v, hv⟩ := by
  have hfits : ¬ v < w := Nat.not_lt.mpr hle
  cases widening with
  | zeros =>
    apply Yields.of_embed
    · rw [perform, Stored.zeroExtend_of, Stored.toNat_width hv]
      rfl
    · rw [apply, Bits.zeroExtend, if_neg hfits, dif_pos hv]
      rfl
  | sign =>
    apply Yields.of_embed
    · rw [perform, Stored.signExtend_of, Stored.toNat_width hv]
      rfl
    · rw [apply, Bits.signExtend, if_neg hfits, dif_pos hv]
      rfl

theorem keeps_of (hle : w ≤ v) (hle' : v ≤ u) (hu : u ≤ 64) (hv : v ≤ 64) (hw : w ≤ 64)
    (x y : BitVec w) :
    widening.Keeps ⟨w, x, hw⟩ ⟨w, y, hw⟩ ⟨v, widening.widen x v, hv⟩ ⟨v, widening.widen y v, hv⟩ v u := by
  constructor
  case width => rfl
  case unsigned =>
    rintro rfl
    exact toNat_widen_zeros hle x
  case signed =>
    rintro rfl
    exact toInt_widen_sign hle x
  case narrowed =>
    have hback := Stored.yields_truncate hle hv hw (widening.widen x v)
    rwa [widening.setWidth_widen hle x] at hback
  case widened =>
    have hagain := widening.yields_widen hle' hu hv (widening.widen x v)
    rw [widening.widen_widen hle x hle'] at hagain
    exact ⟨_, hagain, widening.yields_widen (Nat.le_trans hle hle') hu hw x⟩
  case equal =>
    have hanswer : (x == y) = decide (x.toNat = y.toNat) := decide_eq_decide.mpr BitVec.toNat_inj.symm
    refine ⟨_, rfl, .of_embed (Stored.equal_of ..) ?_, .of_embed (Stored.equal_of ..) ?_⟩
    · rw [Bits.equal, Bits.compare_mk, hanswer]
      rfl
    · rw [Bits.equal, Bits.compare_mk, widening.beq_widen hle, hanswer]
      rfl
  case lessUnsigned =>
    refine ⟨_, rfl, .of_embed (Stored.lessUnsigned_of ..) (Bits.compare_mk ..),
      .of_embed (Stored.lessUnsigned_of ..) ?_⟩
    rw [Bits.lessUnsigned, Bits.compare_mk, widening.ult_widen hle]
    rfl
  case lessSigned =>
    rintro rfl
    refine ⟨_, rfl, .of_embed (Stored.lessSigned_of ..) (Bits.compare_mk ..),
      .of_embed (Stored.lessSigned_of ..) ?_⟩
    rw [Bits.lessSigned, Bits.compare_mk, slt_widen_sign hle]
    rfl

end Results

end Widening

namespace Bits

/-- How the bits of a vector and its values belong together. -/
structure TwosComplement (a : Bits) : Prop where
  unsigned : (of a).bits.toNat = a.toNat
  signed : ∃ value : BitVec 64, (of a).signed = .ok value ∧ value.toInt = a.toInt
  bounds : 0 < a.width → -2 ^ (a.width - 1) ≤ a.toInt ∧ a.toInt < 2 ^ (a.width - 1)
  back : Yields ((of a).signed >>= fun value => Stored.ofSigned (of a).width value)
    (ofInt a.width a.toInt) a
  modulo : ∀ value : BitVec 64, ∃ c,
    Yields (Stored.ofSigned (of a).width value) (ofInt a.width value.toInt) c ∧
    c.width = a.width ∧ c.toNat = value.toInt % 2 ^ a.width

theorem yields_ofSigned {w : Nat} (hw : w ≤ 64) (value : BitVec 64) :
    Yields (Stored.ofSigned (BitVec.ofNat 32 w) value) (ofInt w value.toInt)
      ⟨w, BitVec.ofInt w value.toInt, hw⟩ := by
  constructor
  case words => rw [Stored.ofSigned, Stored.new_width hw, ← setWidth_ofInt hw, BitVec.ofInt_toInt]
  case vectors => exact dif_pos hw

theorem twosComplement (a : Bits) : a.TwosComplement := by
  obtain ⟨w, x, hw⟩ := a
  constructor
  case unsigned => exact BitVec.toNat_setWidth_of_le hw
  case signed => exact ⟨_, Stored.signed_of _, BitVec.toInt_signExtend_of_le hw⟩
  case bounds => exact fun _ => ⟨x.le_toInt, BitVec.toInt_lt⟩
  case back =>
    have hback := yields_ofSigned hw (x.signExtend 64)
    rw [BitVec.toInt_signExtend_of_le hw, BitVec.ofInt_toInt] at hback
    refine ⟨?_, hback.vectors⟩
    rw [Stored.signed_of, Checked.ok_bind]
    exact hback.words
  case modulo =>
    intro value
    exact ⟨_, yields_ofSigned hw value, rfl, toNat_ofInt value.toInt⟩

/-- Widening keeps the value of a vector and the order of vectors, and what it adds can be cut off
    again. Widening with copies of the top bit keeps the order without a sign as well. -/
theorem widening_keeps (a b : Bits) (hwidth : a.width = b.width) {middle wide : Nat}
    (hmiddle : a.width ≤ middle) (hwide : middle ≤ wide) (hfits : wide ≤ 64) :
    a.TwosComplement ∧ ∀ widening : Widening, ∃ c d,
      Yields (widening.perform (of a) (BitVec.ofNat 32 middle)) (widening.apply a middle) c ∧
      Yields (widening.perform (of b) (BitVec.ofNat 32 middle)) (widening.apply b middle) d ∧
      widening.Keeps a b c d middle wide := by
  refine ⟨a.twosComplement, fun widening => ?_⟩
  obtain ⟨w, x, hw⟩ := a
  obtain ⟨v, y, hv⟩ := b
  obtain rfl : w = v := hwidth
  have hmiddleFits : middle ≤ 64 := Nat.le_trans hwide hfits
  exact ⟨_, _, widening.yields_widen hmiddle hmiddleFits hw x, widening.yields_widen hmiddle hmiddleFits hw y,
    widening.keeps_of hmiddle hwide hfits hmiddleFits hw x y⟩

/-- -8 and 7 in four bits, widened to eight bits and on to 64 with copies of the top bit. Without a
    sign -8 is the greater one, before and after. -/
theorem widening_keeps_order :
    let a : Bits := ⟨4, 8#4, by decide⟩
    let b : Bits := ⟨4, 7#4, by decide⟩
    a.width = b.width ∧ a.width ≤ 8 ∧ 8 ≤ 64 ∧ 64 ≤ 64 ∧ ∃ c d,
      Yields (Widening.sign.perform (of a) 8#32) (Widening.sign.apply a 8) c ∧
      Yields (Widening.sign.perform (of b) 8#32) (Widening.sign.apply b 8) d ∧
      c.toInt = -8 ∧
      Yields ((of c).lessUnsigned (of d)) (c.lessUnsigned d) (ofBool false) ∧
      Yields ((of c).lessSigned (of d)) (c.lessSigned d) (ofBool true) := by
  intro a b
  have hwidth : a.width = b.width := rfl
  have hmiddle : a.width ≤ 8 := by decide
  have hwide : 8 ≤ 64 := by decide
  obtain ⟨-, hwidening⟩ := widening_keeps a b hwidth hmiddle hwide (Nat.le_refl 64)
  obtain ⟨c, d, hc, hd, hkeeps⟩ := hwidening .sign
  obtain ⟨_, rfl, -, hunsigned⟩ := hkeeps.lessUnsigned
  obtain ⟨_, rfl, -, hsigned⟩ := hkeeps.lessSigned rfl
  exact ⟨hwidth, hmiddle, hwide, Nat.le_refl 64, c, d, hc, hd, hkeeps.signed rfl, hunsigned, hsigned⟩

end Bits
end RiscvSemantics
