import RiscvSemantics.Bits.Slice
import RiscvSemantics.Proofs.Bits.Integer
import RiscvSemantics.Proofs.Stored.Basic

namespace RiscvSemantics.Stored

/-- A part that would be moved out of the word altogether counts as zero. -/
def concat (high low : Stored) : Checked Stored := do
  let width ← Checked.add high.width low.width
  if width.toNat ≤ 64 then
    new width ((Checked.shiftLeft? high.bits low.width.toNat).getD 0#64 ||| low.bits)
  else
    .error (.fault .concatenationTooWide)

def extract (s : Stored) (start width : BitVec 32) : Checked Stored :=
  new width ((Checked.shiftRight? s.bits start.toNat).getD 0#64)

def truncate (s : Stored) (width : BitVec 32) : Checked Stored :=
  if width.toNat ≤ s.width.toNat then new width s.bits
  else .error (.fault .wideningTruncation)

def zeroExtend (s : Stored) (width : BitVec 32) : Checked Stored :=
  if s.width.toNat ≤ width.toNat then new width s.bits
  else .error (.fault .narrowingZeroExtension)

def signExtend (s : Stored) (width : BitVec 32) : Checked Stored :=
  if s.width.toNat ≤ width.toNat then do
    let value ← s.signed
    ofSigned width value
  else
    .error (.fault .narrowingSignExtension)

/-! On the words of a vector, each gives the words of what it gives on the vector. -/

theorem concat_of (a b : Bits) : (of a).concat (of b) = embed (a.concat b) := by
  obtain ⟨w, x, hw⟩ := a
  obtain ⟨v, y, hv⟩ := b
  have hsum : BitVec.ofNat 32 w + BitVec.ofNat 32 v = BitVec.ofNat 32 (w + v) := (BitVec.ofNat_add ..).symm
  have hwidth : (BitVec.ofNat 32 (w + v)).toNat = w + v := by
    rw [BitVec.toNat_ofNat, Nat.mod_eq_of_lt]
    omega
  have hadd : Checked.add (BitVec.ofNat 32 w) (BitVec.ofNat 32 v) = .ok (BitVec.ofNat 32 (w + v)) := by
    rw [Checked.add_ok, hsum]
    rw [toNat_width hw, toNat_width hv]
    omega
  rw [concat, of, of, hadd, Checked.ok_bind, hwidth, Bits.concat]
  split
  case isTrue hfits =>
    have hparts : (x.setWidth 64 <<< v ||| y.setWidth 64).setWidth (w + v) = x ++ y := by
      apply BitVec.eq_of_getLsbD_eq
      intro i hi
      have hword : i < 64 := by omega
      rw [BitVec.getLsbD_setWidth, BitVec.getLsbD_or, BitVec.getLsbD_shiftLeft, BitVec.getLsbD_setWidth,
        BitVec.getLsbD_setWidth, BitVec.getLsbD_append]
      by_cases hlow : i < v
      · simp [hi, hword, hlow]
      · have hmoved : i - v < 64 := by omega
        have hbeyond : y.getLsbD i = false := BitVec.getLsbD_of_ge y i (by omega)
        simp [hi, hword, hlow, hmoved, hbeyond]
    rw [toNat_width hv, Checked.shiftLeft?_getD, new_width hfits, hparts]
    rfl
  case isFalse hwide => rfl

theorem extract_of (a : Bits) (start width : BitVec 32) :
    (of a).extract start width = embed (a.extract start.toNat width.toNat) := by
  rw [extract, Checked.shiftRight?_getD]
  apply new_eq_embed
  intro _
  apply BitVec.eq_of_getLsbD_eq
  intro i hi
  have hle := a.width_le
  rw [of, BitVec.getLsbD_setWidth, BitVec.getLsbD_ushiftRight, BitVec.getLsbD_setWidth,
    BitVec.getLsbD_extractLsb']
  by_cases hinside : start.toNat + i < 64
  · simp [hi, hinside]
  · have hbeyond : a.value.getLsbD (start.toNat + i) = false := BitVec.getLsbD_of_ge _ _ (by omega)
    simp [hi, hinside, hbeyond]

theorem truncate_of (a : Bits) (width : BitVec 32) :
    (of a).truncate width = embed (a.truncate width.toNat) := by
  obtain ⟨w, x, hw⟩ := a
  rw [truncate, of, toNat_width hw, Bits.truncate]
  split
  case isTrue hnarrow =>
    have hfits : width.toNat ≤ 64 := Nat.le_trans hnarrow hw
    rw [new_of_le hfits, BitVec.setWidth_setWidth_of_le _ hfits]
    rfl
  case isFalse => rfl

theorem yields_truncate {w v : Nat} (hle : w ≤ v) (hv : v ≤ 64) (hw : w ≤ 64) (x : BitVec v) :
    Yields ((of ⟨v, x, hv⟩).truncate (BitVec.ofNat 32 w)) (Bits.truncate ⟨v, x, hv⟩ w)
      ⟨w, x.setWidth w, hw⟩ := by
  apply Yields.of_embed
  · rw [truncate_of, toNat_width hw]
  · exact dif_pos hle

theorem zeroExtend_of (a : Bits) (width : BitVec 32) :
    (of a).zeroExtend width = embed (a.zeroExtend width.toNat) := by
  obtain ⟨w, x, hw⟩ := a
  rw [zeroExtend, of, toNat_width hw, Bits.zeroExtend]
  by_cases hnarrow : width.toNat < w
  · rw [if_neg (by omega), if_pos hnarrow]
    rfl
  · rw [if_pos (by omega), if_neg hnarrow]
    exact new_eq_embed fun hfits => BitVec.setWidth_setWidth_of_le x hfits

theorem signExtend_of (a : Bits) (width : BitVec 32) :
    (of a).signExtend width = embed (a.signExtend width.toNat) := by
  have hwidth : (of a).width.toNat = a.width := toNat_width a.width_le
  rw [signExtend, hwidth, signed_of, Checked.ok_bind, ofSigned, Bits.signExtend]
  by_cases hnarrow : width.toNat < a.width
  · rw [if_neg (by omega), if_pos hnarrow]
    rfl
  · rw [if_pos (by omega), if_neg hnarrow]
    exact new_eq_embed fun hfits => Bits.setWidth_ofInt hfits a.value.toInt

end RiscvSemantics.Stored
