import RiscvSemantics.Proofs.Bits.Pieces
import RiscvSemantics.Proofs.Laws.Movement

namespace RiscvSemantics

namespace Bits

open Stored (of Yields)

/-- The vector `low` with the vector `high` above it. -/
def join (high low : Bits) (hfits : high.width + low.width ≤ 64) : Bits :=
  ⟨high.width + low.width, high.value ++ low.value, hfits⟩

/-- The `width` bits of a vector from position `start` up. -/
def slice (a : Bits) (start : Nat) {width : Nat} (hwidth : width ≤ 64) : Bits :=
  ⟨width, a.value.extractLsb' start width, hwidth⟩

@[simp] theorem width_join (high low : Bits) (hfits : high.width + low.width ≤ 64) :
    (high.join low hfits).width = high.width + low.width := rfl

@[simp] theorem width_slice (a : Bits) (start : Nat) {width : Nat} (hwidth : width ≤ 64) :
    (a.slice start hwidth).width = width := rfl

section Positions

variable (a b c : Bits)

/-- There are no bits beyond the top of a vector. -/
theorem bit_of_width_le {a : Bits} {i : Nat} (hi : a.width ≤ i) : a.bit i = false :=
  BitVec.getLsbD_of_ge a.value i hi

theorem bit_join (hfits : a.width + b.width ≤ 64) (i : Nat) :
    (a.join b hfits).bit i = if i < b.width then b.bit i else a.bit (i - b.width) :=
  BitVec.getLsbD_append

theorem bit_slice (start : Nat) {width i : Nat} (hwidth : width ≤ 64) (hi : i < width) :
    (a.slice start hwidth).bit i = a.bit (start + i) := by
  rw [slice, bit_mk, BitVec.getLsbD_extractLsb', decide_eq_true hi, Bool.true_and]
  rfl

theorem toNat_join (hfits : a.width + b.width ≤ 64) :
    (a.join b hfits).toNat = a.toNat * 2 ^ b.width + b.toNat := by
  rw [join, toNat_mk, toNat_append, Nat.shiftLeft_eq]
  rfl

theorem slice_join_low (hfits : a.width + b.width ≤ 64) : (a.join b hfits).slice 0 b.width_le = b := by
  apply eq_of_bit
  case hwidth => rfl
  case hbit =>
    intro i hi
    rw [bit_slice _ _ _ hi, bit_join, Nat.zero_add, if_pos hi]

theorem slice_join_high (hfits : a.width + b.width ≤ 64) :
    (a.join b hfits).slice b.width a.width_le = a := by
  apply eq_of_bit
  case hwidth => rfl
  case hbit =>
    intro i hi
    have habove : ¬ b.width + i < b.width := by omega
    rw [bit_slice _ _ _ hi, bit_join, if_neg habove, Nat.add_sub_cancel_left]

/-- A position is in the lowest vector, in the middle one, or else in the highest. -/
theorem join_assoc (hlow : b.width + c.width ≤ 64) (hhigh : a.width + b.width ≤ 64)
    (hright : a.width + (b.join c hlow).width ≤ 64) (hleft : (a.join b hhigh).width + c.width ≤ 64) :
    (a.join b hhigh).join c hleft = a.join (b.join c hlow) hright := by
  apply eq_of_bit
  case hwidth => exact Nat.add_assoc ..
  case hbit =>
    intro i _
    rw [bit_join, bit_join, bit_join, bit_join, width_join]
    by_cases hc : i < c.width
    · rw [if_pos hc, if_pos (Nat.lt_add_left _ hc), if_pos hc]
    · by_cases hb : i - c.width < b.width
      · rw [if_neg hc, if_pos hb, if_pos (by omega), if_neg hc]
      · rw [if_neg hc, if_neg hb, if_neg (by omega), Nat.sub_sub, Nat.add_comm c.width]

/-- A vector that is cut in two at any position is put together again. -/
theorem join_slice {k : Nat} (hk : k ≤ a.width) (hlow : k ≤ 64) (hhigh : a.width - k ≤ 64)
    (hfits : (a.slice k hhigh).width + (a.slice 0 hlow).width ≤ 64) :
    (a.slice k hhigh).join (a.slice 0 hlow) hfits = a := by
  apply eq_of_bit
  case hwidth => exact Nat.sub_add_cancel hk
  case hbit =>
    intro i hi
    rw [bit_join, width_slice]
    split
    case isTrue hbelow => rw [bit_slice _ _ _ hbelow, Nat.zero_add]
    case isFalse habove =>
      rw [bit_slice _ _ _ (by omega), Nat.add_sub_cancel' (Nat.not_lt.mp habove)]

theorem slice_slice (start inner : Nat) {middle width : Nat} (hmiddle : middle ≤ 64) (hwidth : width ≤ 64)
    (hcovers : ∀ i < width, inner + i < middle) :
    (a.slice start hmiddle).slice inner hwidth = a.slice (start + inner) hwidth := by
  apply eq_of_bit
  case hwidth => rfl
  case hbit =>
    intro i hi
    rw [width_slice] at hi
    rw [bit_slice _ _ _ hi, bit_slice _ _ _ (hcovers i hi), bit_slice _ _ _ hi, Nat.add_assoc]

end Positions

section Results

variable (a : Bits) {b : Bits}

theorem yields_join (hfits : a.width + b.width ≤ 64) :
    Yields ((of a).concat (of b)) (a.concat b) (a.join b hfits) :=
  .of_embed (Stored.concat_of a b) (dif_pos hfits)

theorem yields_slice (start : BitVec 32) {width : Nat} (hwidth : width ≤ 64) :
    Yields ((of a).extract start (BitVec.ofNat 32 width)) (a.extract start.toNat width)
      (a.slice start.toNat hwidth) := by
  apply Yields.of_embed
  · rw [Stored.extract_of, Stored.toNat_width hwidth]
  · exact dif_pos hwidth

/-- As `yields_slice`, for a position that is itself no more than a width. -/
theorem yields_slice_width {start width : Nat} (hstart : start ≤ 64) (hwidth : width ≤ 64) :
    Yields ((of a).extract (BitVec.ofNat 32 start) (BitVec.ofNat 32 width)) (a.extract start width)
      (a.slice start hwidth) := by
  have hslice := a.yields_slice (BitVec.ofNat 32 start) hwidth
  rwa [Stored.toNat_width hstart] at hslice

end Results

/-- The vector `joined` is `high` above `low`, and both can be cut out of it again. -/
structure Joins (high low joined : Bits) : Prop where
  width : joined.width = high.width + low.width
  unsigned : joined.toNat = high.toNat * 2 ^ low.width + low.toNat
  low_back : Yields ((of joined).extract 0#32 (of low).width) (joined.extract 0 low.width) low
  high_back : Yields ((of joined).extract (of low).width (of high).width)
    (joined.extract low.width high.width) high

theorem joins_join (high low : Bits) (hfits : high.width + low.width ≤ 64) :
    Joins high low (high.join low hfits) := by
  constructor
  case width => rfl
  case unsigned => exact toNat_join high low hfits
  case low_back =>
    have hback := (high.join low hfits).yields_slice_width (Nat.zero_le 64) low.width_le
    rwa [slice_join_low] at hback
  case high_back =>
    have hback := (high.join low hfits).yields_slice_width low.width_le high.width_le
    rwa [slice_join_high] at hback

/-- What can be cut out of a vector. A position can be any number of 32 bits, and a slice can be wider
    than the vector. -/
structure Slices (a : Bits) : Prop where
  extract : ∀ (start : BitVec 32) {width : Nat}, width ≤ 64 → ∃ slice,
    Yields ((of a).extract start (BitVec.ofNat 32 width)) (a.extract start.toNat width) slice ∧
    slice.HasBits width fun i => if start.toNat + i < a.width then a.bit (start.toNat + i) else false
  divide : ∀ k ≤ a.width, ∃ high low,
    Yields ((of a).extract (BitVec.ofNat 32 k) (BitVec.ofNat 32 (a.width - k))) (a.extract k (a.width - k))
      high ∧
    Yields ((of a).extract 0#32 (BitVec.ofNat 32 k)) (a.extract 0 k) low ∧
    Yields ((of high).concat (of low)) (high.concat low) a
  /-- The added positions can be one that does not fit in 32 bits. -/
  extract_extract : ∀ (start inner : BitVec 32) {middle width : Nat}, middle ≤ 64 → width ≤ 64 →
    (∀ i < width, inner.toNat + i < middle) → ∃ outer slice,
    Yields ((of a).extract start (BitVec.ofNat 32 middle)) (a.extract start.toNat middle) outer ∧
    Yields ((of outer).extract inner (BitVec.ofNat 32 width)) (outer.extract inner.toNat width) slice ∧
    a.extract (start.toNat + inner.toNat) width = .ok slice ∧
    ∀ sum : BitVec 32, sum.toNat = start.toNat + inner.toNat →
      (of a).extract sum (BitVec.ofNat 32 width) = .ok (of slice)

theorem slices (a : Bits) : a.Slices := by
  constructor
  case extract =>
    intro start width hwidth
    refine ⟨_, a.yields_slice start hwidth, rfl, fun i hi => ?_⟩
    rw [bit_slice _ _ _ hi]
    by_cases hinside : start.toNat + i < a.width
    · exact (if_pos hinside).symm
    · exact (bit_of_width_le (Nat.not_lt.mp hinside)).trans (if_neg hinside).symm
  case divide =>
    intro k hk
    have hle := a.width_le
    have hlow : k ≤ 64 := Nat.le_trans hk hle
    have hhigh : a.width - k ≤ 64 := by omega
    have hfits : (a.slice k hhigh).width + (a.slice 0 hlow).width ≤ 64 := by
      rw [width_slice, width_slice]
      omega
    have hback := yields_join _ hfits
    rw [a.join_slice hk hlow hhigh hfits] at hback
    exact ⟨_, _, a.yields_slice_width hlow hhigh, a.yields_slice_width (Nat.zero_le 64) hlow, hback⟩
  case extract_extract =>
    intro start inner middle width hmiddle hwidth hcovers
    refine ⟨_, _, a.yields_slice start hmiddle, yields_slice _ inner hwidth, ?_, ?_⟩
    · rw [a.slice_slice _ _ hmiddle hwidth hcovers]
      exact dif_pos hwidth
    · intro sum hsum
      rw [a.slice_slice _ _ hmiddle hwidth hcovers, ← hsum]
      exact (a.yields_slice sum hwidth).words

/-- Putting vectors together and cutting them apart are exact and undo each other, on words as on
    vectors. Vectors that fit together can be put together in any order. -/
theorem joins_and_slices (a b c : Bits) :
    a.Slices ∧
    (a.width + b.width ≤ 64 → ∃ joined,
      Yields ((of a).concat (of b)) (a.concat b) joined ∧ Joins a b joined) ∧
    (a.width + b.width + c.width ≤ 64 → ∃ whole,
      Yields ((of a).concat (of b) >>= fun joined => joined.concat (of c))
        (a.concat b >>= fun joined => joined.concat c) whole ∧
      Yields ((of b).concat (of c) >>= fun joined => (of a).concat joined)
        (b.concat c >>= fun joined => a.concat joined) whole) := by
  refine ⟨a.slices, fun hfits => ⟨_, a.yields_join hfits, joins_join a b hfits⟩, fun hfits => ?_⟩
  have hhigh : a.width + b.width ≤ 64 := by omega
  have hlow : b.width + c.width ≤ 64 := by omega
  have hright : a.width + (b.join c hlow).width ≤ 64 := by
    rw [width_join, ← Nat.add_assoc]
    exact hfits
  refine ⟨(a.join b hhigh).join c hfits, ?_, ?_⟩
  · exact (a.yields_join hhigh).bind (yields_join _ hfits)
  · rw [join_assoc a b c hlow hhigh hright hfits]
    exact (b.yields_join hlow).bind (a.yields_join hright)

/-- Four bits above sixty fill the word, and there is room for no bits above or below them. The slice
    at the last position that there is reads zeros. -/
theorem joins_and_slices_full :
    let a : Bits := ⟨4, 9#4, by decide⟩
    let b : Bits := ⟨60, BitVec.allOnes 60, by decide⟩
    let c : Bits := ⟨0, 0#0, by decide⟩
    a.width + b.width ≤ 64 ∧ a.width + b.width + c.width ≤ 64 ∧
      (∃ joined, Yields ((of a).concat (of b)) (a.concat b) joined ∧
        joined.toNat = 9 * 2 ^ 60 + (2 ^ 60 - 1) ∧
        Yields ((of joined).extract 60#32 4#32) (joined.extract 60 4) a) ∧
      (∃ whole, Yields ((of b).concat (of c) >>= fun joined => (of a).concat joined)
        (b.concat c >>= fun joined => a.concat joined) whole) ∧
      ∃ slice, Yields ((of a).extract (BitVec.allOnes 32) 64#32) (a.extract (2 ^ 32 - 1) 64) slice ∧
        ∀ i < 64, slice.bit i = false := by
  intro a b c
  have hfits : a.width + b.width ≤ 64 := by decide
  have hall : a.width + b.width + c.width ≤ 64 := by decide
  obtain ⟨hslices, hjoins, hwhole⟩ := joins_and_slices a b c
  obtain ⟨joined, hjoined, hparts⟩ := hjoins hfits
  obtain ⟨whole, -, hright⟩ := hwhole hall
  obtain ⟨slice, hslice, hbits⟩ := hslices.extract (BitVec.allOnes 32) (Nat.le_refl 64)
  refine ⟨hfits, hall, ⟨joined, hjoined, hparts.unsigned, hparts.high_back⟩, ⟨whole, hright⟩, slice, hslice,
    fun i hi => ?_⟩
  rw [hbits.2 i hi]
  exact if_neg (Nat.not_lt.mpr (Nat.le_trans (by decide : a.width ≤ 2 ^ 32 - 1) (Nat.le_add_right ..)))

end Bits
end RiscvSemantics
