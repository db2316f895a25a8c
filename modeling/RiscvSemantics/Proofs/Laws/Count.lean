import Mathlib.Data.Finset.Card
import Mathlib.Data.Finset.Range
import RiscvSemantics.Proofs.Laws.Slice
import RiscvSemantics.Proofs.Laws.Widening

namespace RiscvSemantics

open Stored (of Yields)

section Positions

variable (p q : Nat → Bool)

/-- Positions are counted piece by piece, each piece from its own start. -/
theorem countP_range_add (m n : Nat) :
    (List.range (m + n)).countP p = (List.range m).countP p + (List.range n).countP fun i => p (m + i) := by
  rw [List.range_add, List.countP_append, List.countP_map]
  rfl

theorem countP_range_congr {n : Nat} (h : ∀ i < n, p i = q i) :
    (List.range n).countP p = (List.range n).countP q := by
  apply List.countP_congr
  intro i hi
  rw [h i (List.mem_range.mp hi)]

theorem countP_not_add (positions : List Nat) :
    positions.countP (fun i => !p i) + positions.countP p = positions.length := by
  induction positions with
  | nil => rfl
  | cons i rest ih =>
    simp only [List.countP_cons, List.length_cons]
    cases p i with
    | false | true => simp; omega

/-- What two sets have in common is counted twice when each is counted for itself. -/
theorem countP_and_add_or (positions : List Nat) :
    positions.countP (fun i => p i && q i) + positions.countP (fun i => p i || q i) =
      positions.countP p + positions.countP q := by
  induction positions with
  | nil => rfl
  | cons i rest ih =>
    simp only [List.countP_cons]
    cases p i with
    | false | true => cases q i with
      | false | true => simp; omega

theorem countP_xor_add_and (positions : List Nat) :
    positions.countP (fun i => p i ^^ q i) + positions.countP (fun i => p i && q i) =
      positions.countP fun i => p i || q i := by
  induction positions with
  | nil => rfl
  | cons i rest ih =>
    simp only [List.countP_cons]
    cases p i with
    | false | true => cases q i with
      | false | true => simp; omega

end Positions

/-- Set bits are counted over the whole word, whatever the width. -/
def Stored.popCount (s : Stored) : Nat :=
  s.bits.cpop.toNat

theorem cpopNatRec_eq_countP {w : Nat} (x : BitVec w) (n : Nat) :
    x.cpopNatRec n 0 = (List.range n).countP x.getLsbD := by
  induction n with
  | zero => rfl
  | succ n ih =>
    rw [BitVec.cpopNatRec_succ, BitVec.cpopNatRec_add, ih, List.range_succ, List.countP_append,
      List.countP_singleton]
    cases x.getLsbD n <;> rfl

namespace Bits

/-- A canonical word has no set bits but those of its vector. -/
theorem popCount_of (a : Bits) : (of a).popCount = a.popCount := by
  rw [Stored.popCount, of, BitVec.toNat_cpop_setWidth_eq_of_le a.width_le, BitVec.toNat_cpop]
  exact cpopNatRec_eq_countP a.value a.width

theorem popCount_eq_card (a : Bits) : a.popCount = ((Finset.range a.width).filter (a.bit ·)).card := by
  simp only [popCount, List.countP_eq_length_filter, Finset.card_def, Finset.filter_val, Finset.range_val,
    Multiset.range, Multiset.filter_coe, Multiset.coe_card, Bool.decide_eq_true]

theorem popCount_le_width (a : Bits) : a.popCount ≤ a.width := by
  have hle : a.popCount ≤ (List.range a.width).length := List.countP_le_length
  rwa [List.length_range] at hle

theorem popCount_not (a : Bits) : a.not.popCount = a.width - a.popCount := by
  have hflip : ∀ i < a.width, a.not.bit i = !a.bit i := by
    intro i hi
    rw [Bits.not, bit_mk, BitVec.getLsbD_not, decide_eq_true hi, Bool.true_and]
    rfl
  have hsum := countP_not_add a.bit (List.range a.width)
  rw [List.length_range, ← countP_range_congr _ _ hflip] at hsum
  exact Nat.eq_sub_of_add_eq hsum

/-- The bits that a rotation brings to the bottom come from the top, and the others move up behind
    them. -/
theorem popCount_rotate (a : Bits) (amount : Int) : (a.rotate amount).popCount = a.popCount := by
  by_cases hzero : a.width = 0
  · rw [rotate, if_pos hzero]
  have hlow : 0 ≤ amount % a.width := Int.emod_nonneg _ (by omega)
  have hhigh : amount % a.width < a.width := Int.emod_lt_of_pos _ (by omega)
  obtain ⟨turn, hamount⟩ := Int.eq_ofNat_of_zero_le hlow
  have hturn : turn < a.width := by omega
  have hbit : ∀ i < a.width, (a.rotate amount).bit i =
      a.bit (if i < turn then a.width - turn + i else i - turn) := by
    intro i hi
    rw [a.bit_rotate hi, ← Int.sub_emod_emod, hamount, toNat_sub_emod hturn hi]
  have hbottom : ∀ i < turn, (a.rotate amount).bit i = a.bit (a.width - turn + i) := by
    intro i hi
    rw [hbit i (by omega), if_pos hi]
  have hrest : ∀ i < a.width - turn, (a.rotate amount).bit (turn + i) = a.bit i := by
    intro i hi
    rw [hbit (turn + i) (by omega), if_neg (by omega), Nat.add_sub_cancel_left]
  have hrotated := countP_range_add (a.rotate amount).bit turn (a.width - turn)
  have hwhole := countP_range_add a.bit (a.width - turn) turn
  rw [Nat.add_sub_cancel' hturn.le, countP_range_congr _ _ hbottom, countP_range_congr _ _ hrest] at hrotated
  rw [Nat.sub_add_cancel hturn.le] at hwhole
  rw [popCount, popCount, width_rotate, hrotated, hwhole, Nat.add_comm]

theorem popCount_join (high low : Bits) (hfits : high.width + low.width ≤ 64) :
    (high.join low hfits).popCount = high.popCount + low.popCount := by
  have hbelow : ∀ i < low.width, (high.join low hfits).bit i = low.bit i := by
    intro i hi
    rw [bit_join, if_pos hi]
  have habove : ∀ i < high.width, (high.join low hfits).bit (low.width + i) = high.bit i := by
    intro i _
    rw [bit_join, if_neg (by omega), Nat.add_sub_cancel_left]
  rw [popCount, width_join, Nat.add_comm, countP_range_add, countP_range_congr _ _ hbelow,
    countP_range_congr _ _ habove, Nat.add_comm]
  rfl

section Widened

variable {w v : Nat} (hle : w ≤ v) (hw : w ≤ 64) (hv : v ≤ 64) (x : BitVec w)
include hle

/-- Every bit that widening adds is the same one. -/
theorem popCount_widen (widening : Widening) (added : Bool)
    (hadded : ∀ i < v, w ≤ i → (widening.widen x v).getLsbD i = added) :
    popCount ⟨v, widening.widen x v, hv⟩ = popCount ⟨w, x, hw⟩ + if added then v - w else 0 := by
  have hkept : ∀ i < w, (widening.widen x v).getLsbD i = x.getLsbD i := by
    intro i hi
    have hback := congrArg (BitVec.getLsbD · i) (widening.setWidth_widen hle x)
    rwa [BitVec.getLsbD_setWidth, decide_eq_true hi, Bool.true_and] at hback
  have hbeyond : ∀ i < v - w, (widening.widen x v).getLsbD (w + i) = added :=
    fun i hi => hadded (w + i) (by omega) (by omega)
  have hcount := countP_range_add (widening.widen x v).getLsbD w (v - w)
  rw [Nat.add_sub_cancel' hle, countP_range_congr _ _ hkept, countP_range_congr _ _ hbeyond] at hcount
  refine hcount.trans (congrArg (popCount ⟨w, x, hw⟩ + ·) ?_)
  cases added with
  | false => exact congrFun List.countP_false _
  | true => exact (congrFun List.countP_true _).trans List.length_range

theorem popCount_widen_zeros :
    popCount ⟨v, Widening.zeros.widen x v, hv⟩ = popCount ⟨w, x, hw⟩ := by
  refine popCount_widen hle hw hv x .zeros false fun i _ hi => ?_
  rw [Widening.widen, BitVec.getLsbD_setWidth, BitVec.getLsbD_of_ge x i hi, Bool.and_false]

theorem popCount_widen_sign :
    popCount ⟨v, Widening.sign.widen x v, hv⟩ = popCount ⟨w, x, hw⟩ + if x.msb then v - w else 0 := by
  refine popCount_widen hle hw hv x .sign x.msb fun i hiv hi => ?_
  rw [Widening.widen, BitVec.getLsbD_signExtend, decide_eq_true hiv, Bool.true_and,
    if_neg (Nat.not_lt.mpr hi)]

end Widened

section Combined

variable {w : Nat} (hw : w ≤ 64) (x y : BitVec w)

theorem popCount_and_add_or :
    popCount ⟨w, x &&& y, hw⟩ + popCount ⟨w, x ||| y, hw⟩ = popCount ⟨w, x, hw⟩ + popCount ⟨w, y, hw⟩ := by
  have hsum := countP_and_add_or x.getLsbD y.getLsbD (List.range w)
  simp only [← BitVec.getLsbD_and, ← BitVec.getLsbD_or] at hsum
  exact hsum

theorem popCount_xor_add_and :
    popCount ⟨w, x ^^^ y, hw⟩ + popCount ⟨w, x &&& y, hw⟩ = popCount ⟨w, x ||| y, hw⟩ := by
  have hsum := countP_xor_add_and x.getLsbD y.getLsbD (List.range w)
  simp only [← BitVec.getLsbD_and, ← BitVec.getLsbD_or, ← BitVec.getLsbD_xor] at hsum
  exact hsum

end Combined

/-- So many bits of a vector are set, by its positions and by its whole word. -/
structure HasOnes (a : Bits) (count : Nat) : Prop where
  positions : ((Finset.range a.width).filter (a.bit ·)).card = count
  vector : a.popCount = count
  word : (of a).popCount = count

theorem hasOnes_of_popCount {a : Bits} {count : Nat} (hcount : a.popCount = count) : a.HasOnes count where
  positions := a.popCount_eq_card.symm.trans hcount
  vector := hcount
  word := a.popCount_of.trans hcount

/-- How many bits of a vector are set, and how many when it is rotated, flipped or widened. There is no
    top bit to copy when there are no bits. -/
structure Counts (a : Bits) : Prop where
  self : a.HasOnes a.popCount
  le_width : a.popCount ≤ a.width
  rotate : ∀ amount : BitVec 64, ∃ rotated,
    Yields ((of a).rotate amount) (.ok (a.rotate amount.toInt)) rotated ∧ rotated.HasOnes a.popCount
  not : ∃ flipped, Yields (of a).not (.ok a.not) flipped ∧ flipped.HasOnes (a.width - a.popCount)
  zeroExtend : ∀ {width : Nat}, a.width ≤ width → width ≤ 64 → ∃ widened,
    Yields ((of a).zeroExtend (BitVec.ofNat 32 width)) (a.zeroExtend width) widened ∧
    widened.HasOnes a.popCount
  signExtend : ∀ {width : Nat}, a.width ≤ width → width ≤ 64 → ∃ widened,
    Yields ((of a).signExtend (BitVec.ofNat 32 width)) (a.signExtend width) widened ∧
    widened.HasOnes (a.popCount + if a.bit (a.width - 1) then width - a.width else 0)

theorem counts (a : Bits) : a.Counts := by
  constructor
  case self => exact hasOnes_of_popCount rfl
  case le_width => exact a.popCount_le_width
  case rotate =>
    intro amount
    exact ⟨_, ⟨Stored.rotate_of a amount, rfl⟩, hasOnes_of_popCount (a.popCount_rotate amount.toInt)⟩
  case not => exact ⟨_, ⟨Stored.not_of a, rfl⟩, hasOnes_of_popCount a.popCount_not⟩
  case zeroExtend =>
    intro width hle hfits
    exact ⟨_, Widening.zeros.yields_widen hle hfits a.width_le a.value,
      hasOnes_of_popCount (popCount_widen_zeros hle a.width_le hfits a.value)⟩
  case signExtend =>
    intro width hle hfits
    have htop : a.value.msb = a.bit (a.width - 1) := BitVec.msb_eq_getLsbD_last a.value
    refine ⟨_, Widening.sign.yields_widen hle hfits a.width_le a.value, hasOnes_of_popCount ?_⟩
    rw [popCount_widen_sign hle a.width_le hfits a.value, htop]

/-- Rotating, flipping, widening, joining and combining vectors lose no set bit and add none but those
    that they say. -/
theorem set_bits_are_counted (a b : Bits) :
    a.Counts ∧
    (a.width + b.width ≤ 64 → ∃ joined,
      Yields ((of a).concat (of b)) (a.concat b) joined ∧ joined.HasOnes (a.popCount + b.popCount)) ∧
    (a.width = b.width → ∃ both either one m n,
      Yields ((of a).and (of b)) (a.and b) both ∧ both.HasOnes m ∧
      Yields ((of a).or (of b)) (a.or b) either ∧ either.HasOnes n ∧
      Yields ((of a).xor (of b)) (a.xor b) one ∧ one.HasOnes (n - m) ∧
      m ≤ n ∧ a.popCount + b.popCount = m + n) := by
  refine ⟨a.counts, fun hfits => ?_, fun hwidth => ?_⟩
  · exact ⟨_, a.yields_join hfits, hasOnes_of_popCount (popCount_join a b hfits)⟩
  · obtain ⟨w, x, hw⟩ := a
    obtain ⟨v, y, hv⟩ := b
    obtain rfl : w = v := hwidth
    have hsum := popCount_and_add_or hw x y
    have hdifference := popCount_xor_add_and hw x y
    refine ⟨_, _, _, _, _, .of_embed (Stored.and_of ..) (dif_pos rfl), hasOnes_of_popCount rfl,
      .of_embed (Stored.or_of ..) (dif_pos rfl), hasOnes_of_popCount rfl,
      .of_embed (Stored.xor_of ..) (dif_pos rfl), hasOnes_of_popCount (Nat.eq_sub_of_add_eq hdifference),
      Nat.le.intro ((Nat.add_comm ..).trans hdifference), hsum.symm⟩

/-- Eight bits with three set, next to eight that are all set. -/
theorem set_bits_are_counted_byte :
    let a : Bits := ⟨8, 0x83#8, by decide⟩
    let b : Bits := ⟨8, BitVec.allOnes 8, by decide⟩
    a.width + b.width ≤ 64 ∧ a.width = b.width ∧ a.width ≤ 64 ∧
      (∃ rotated, Yields ((of a).rotate (-3)) (.ok (a.rotate (-3))) rotated ∧ rotated.HasOnes 3) ∧
      (∃ widened, Yields ((of a).signExtend 64#32) (a.signExtend 64) widened ∧ widened.HasOnes 59) ∧
      (∃ joined, Yields ((of a).concat (of b)) (a.concat b) joined ∧ joined.HasOnes 11) ∧
      ∃ both either one m n, Yields ((of a).and (of b)) (a.and b) both ∧ both.HasOnes m ∧
        Yields ((of a).or (of b)) (a.or b) either ∧ either.HasOnes n ∧
        Yields ((of a).xor (of b)) (a.xor b) one ∧ one.HasOnes (n - m) ∧ 11 = m + n := by
  intro a b
  have hfits : a.width + b.width ≤ 64 := by decide
  have hwidth : a.width = b.width := rfl
  have hword : a.width ≤ 64 := a.width_le
  have hthree : a.popCount = 3 := by decide
  have height : b.popCount = 8 := by decide
  have hback : (-3 : BitVec 64).toInt = -3 := by decide
  have hcopies : (a.popCount + if a.bit (a.width - 1) then 64 - a.width else 0) = 59 := by decide
  obtain ⟨hcounts, hjoin, hcombine⟩ := set_bits_are_counted a b
  have hrotated := hcounts.rotate (-3)
  have hwidened := hcounts.signExtend hword (Nat.le_refl 64)
  obtain ⟨joined, hconcat, hjoined⟩ := hjoin hfits
  obtain ⟨both, either, one, m, n, hand, hboth, hor, heither, hxor, hone, -, hsum⟩ := hcombine hwidth
  rw [hback, hthree] at hrotated
  rw [hcopies] at hwidened
  rw [hthree, height] at hjoined hsum
  exact ⟨hfits, hwidth, hword, hrotated, hwidened, ⟨joined, hconcat, hjoined⟩, both, either, one, m, n, hand,
    hboth, hor, heither, hxor, hone, hsum⟩

end Bits
end RiscvSemantics
