import Mathlib.Data.List.TakeWhile
import RiscvSemantics.Text.Blank

namespace RiscvSemantics.Text

theorem trim_append_blank {front back : List Char} (cs : List Char) (hfront : ∀ c ∈ front, isBlank c)
    (hback : ∀ c ∈ back, isBlank c) : trim (front ++ (cs ++ back)) = trim cs := by
  have hnone : back.dropWhile isBlank = [] := List.dropWhile_eq_nil_iff.mpr hback
  have hreverse : ∀ c ∈ back.reverse, isBlank c := fun c hc => hback c (List.mem_reverse.mp hc)
  rw [trim, trim, List.dropWhile_append_of_pos hfront, List.dropWhile_append]
  split
  case isTrue hempty =>
    -- nothing but white space was there to begin with
    rw [hnone, List.isEmpty_iff.mp hempty]
  case isFalse => rw [List.reverse_append, List.dropWhile_append_of_pos hreverse]

theorem isBlank_of_visible {c : Char} (hlow : 0x21 ≤ c.toNat) (hhigh : c.toNat < 0x80) : isBlank c = false := by
  simp only [isBlank, Bool.or_eq_false_iff, Bool.and_eq_false_iff, decide_eq_false_iff_not, beq_eq_false_iff_ne]
  omega

/-- No white space has a case. -/
theorem isBlank_toLower (c : Char) : isBlank c.toLower = isBlank c := by
  unfold Char.toLower
  split
  case isTrue hupper =>
    obtain ⟨hlow, hhigh⟩ := hupper
    rw [ge_iff_le, UInt32.le_iff_toNat_le] at hlow
    rw [UInt32.le_iff_toNat_le] at hhigh
    change 65 ≤ c.toNat at hlow
    change c.toNat ≤ 90 at hhigh
    have hlower : (c.val + ('a'.val - 'A'.val)).toNat = c.toNat + 32 := by
      rw [UInt32.toNat_add]
      exact Nat.mod_eq_of_lt (by change c.toNat + 32 < 2 ^ 32; omega)
    rw [isBlank_of_visible (c := c) (by omega) (by omega)]
    apply isBlank_of_visible
    · change 0x21 ≤ (c.val + ('a'.val - 'A'.val)).toNat
      omega
    · change (c.val + ('a'.val - 'A'.val)).toNat < 0x80
      omega
  case isFalse => rfl

theorem map_toLower_trim (cs : List Char) : (trim cs).map Char.toLower = trim (cs.map Char.toLower) := by
  have hblank : isBlank ∘ Char.toLower = isBlank := funext isBlank_toLower
  rw [trim, trim, List.dropWhile_map, hblank, ← List.map_reverse, List.dropWhile_map, hblank, List.map_reverse]

end RiscvSemantics.Text
