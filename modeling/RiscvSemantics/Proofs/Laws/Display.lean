import Mathlib.Data.List.Basic
import RiscvSemantics.Bits.Text
import RiscvSemantics.Proofs.Bits.Width
import RiscvSemantics.Proofs.Stored.Basic
import RiscvSemantics.Proofs.Text.Numeral

namespace RiscvSemantics

open Stored (of)

/-- The text of words is that of what stands in them, wherever it comes from. -/
def Stored.display (s : Stored) : String :=
  "0x" ++ Text.hexUpper (Bits.hexPlaces s.width.toNat) s.bits.toNat ++ ":" ++ toString s.width.toNat

namespace Bits

/-- A text that shows a vector: a mark, as many digits as the width asks for, a colon and the width. The
    numbers are those of the vector. -/
inductive Shows (text : String) (a : Bits) : Prop where
  | intro {digits suffix : List Char} (htext : text.toList = '0' :: 'x' :: (digits ++ ':' :: suffix))
      (hlength : digits.length = max 1 ((a.width + 3) / 4))
      (hdigits : ∀ c ∈ digits, c ∈ "0123456789ABCDEF".toList)
      (hvalue : Text.readNumeral 16 UInt64.size digits = .ok a.toNat)
      (hsuffix : suffix = Nat.toDigits 10 a.width)
      (hwidth : Text.readNumeral 10 UInt32.size suffix = .ok a.width)

/-- A value has no more digits than are written for its width. -/
theorem toNat_lt_places (a : Bits) : a.toNat < 16 ^ hexPlaces a.width := by
  have hfits : a.width ≤ 4 * hexPlaces a.width := by
    rw [hexPlaces]
    omega
  calc
    a.toNat < 2 ^ a.width := a.value.isLt
    _ ≤ 2 ^ (4 * hexPlaces a.width) := Nat.pow_le_pow_right (by decide) hfits
    _ = 16 ^ hexPlaces a.width := Nat.pow_mul 2 4 _

theorem mem_upper_of_lt : ∀ d < 16, (Nat.digitChar d).toUpper ∈ "0123456789ABCDEF".toList := by
  decide

theorem colon_notMem_toDigits (n : Nat) : ':' ∉ Nat.toDigits 10 n := by
  intro hmem
  obtain ⟨d, hd, hcolon⟩ := Text.exists_of_mem_toDigits (by decide) hmem
  have hvalue := Text.spells_decimal d hd
  rw [id, ← hcolon] at hvalue
  cases hvalue

theorem shows_display (a : Bits) : Shows a.display a := by
  have hplaces : 0 < hexPlaces a.width := by
    rw [hexPlaces]
    omega
  constructor
  case digits => exact (Text.digits 16 (hexPlaces a.width) a.toNat).map Char.toUpper
  case suffix => exact Nat.toDigits 10 a.width
  case htext =>
    rw [display, Text.hexUpper, Nat.toString_eq_ofList_toDigits, String.toList_append, String.toList_append,
      String.toList_append, String.toList_ofList, String.toList_ofList, List.append_assoc, List.append_assoc]
    exact congrArg _ (congrArg (_ ++ ·) (congrArg (':' :: ·) String.toList_ofList))
  case hlength =>
    rw [List.length_map, Text.length_digits (by decide) hplaces a.toNat_lt_places]
    rfl
  case hdigits =>
    intro c hc
    obtain ⟨digit, hdigit, rfl⟩ := List.mem_map.mp hc
    obtain ⟨d, hd, rfl⟩ := Text.exists_of_mem_digits (by decide) hdigit
    exact mem_upper_of_lt d hd
  case hvalue => exact Text.readNumeral_digits Text.spells_hexUpper (by decide) a.toNat_lt_word
  case hsuffix => rfl
  case hwidth =>
    have hread : Text.readNumeral 10 UInt32.size ((Text.digits 10 0 a.width).map id) = .ok a.width :=
      Text.readNumeral_digits Text.spells_decimal (by decide) a.width_lt_word
    rwa [List.map_id, Text.digits, Nat.zero_sub, List.replicate_zero, List.nil_append] at hread

/-- The colon separates, as it is no digit. -/
theorem Shows.unique {text : String} {a b : Bits} (ha : Shows text a) (hb : Shows text b) : a = b := by
  obtain ⟨htext, -, hdigits, hvalue, rfl, hwidth⟩ := ha
  obtain ⟨htext', -, -, hvalue', -, hwidth'⟩ := hb
  rw [htext, List.cons_inj_right, List.cons_inj_right] at htext'
  have hcolon : ':' ∉ "0123456789ABCDEF".toList := by decide
  obtain ⟨rfl, -, rfl⟩ := (List.append_cons_inj_of_notMem (mt (hdigits ':') hcolon)
    (colon_notMem_toDigits a.width)).mp htext'
  rw [hvalue] at hvalue'
  rw [hwidth] at hwidth'
  exact Bits.ext (Except.ok.inj hwidth') (Except.ok.inj hvalue')

theorem Shows.length_eq {text other : String} {a b : Bits} (ha : Shows text a) (hb : Shows other b)
    (hwidth : a.width = b.width) : text.length = other.length := by
  obtain ⟨htext, hlength, -, -, rfl, -⟩ := ha
  obtain ⟨hother, hlength', -, -, rfl, -⟩ := hb
  simp only [← String.length_toList, htext, hother, List.length_cons, List.length_append, hlength, hlength',
    hwidth]

/-- A vector can be told from its text, and how long the text is depends on the width alone. -/
theorem display_is_faithful (a b : Bits) :
    Shows a.display a ∧ (of a).display = a.display ∧ (a.display = b.display ↔ a = b) ∧
      (a.width = b.width → a.display.length = b.display.length) := by
  refine ⟨a.shows_display, ?_, ⟨fun hsame => ?_, congrArg display⟩, a.shows_display.length_eq b.shows_display⟩
  · have hholds := Stored.holds_of a
    rw [Stored.display, hholds.width, hholds.unsigned, display]
  · exact a.shows_display.unique (hsame ▸ b.shows_display)

/-- Five bits take two digits, of which the first may be zero. -/
theorem display_is_faithful_five_bits :
    let a : Bits := ⟨5, 11#5, by decide⟩
    let b : Bits := ⟨5, 31#5, by decide⟩
    a.width = b.width ∧ a.display = "0x0B:5" ∧ b.display = "0x1F:5" ∧ a.display.length = b.display.length := by
  intro a b
  have hwidth : a.width = b.width := rfl
  obtain ⟨-, -, -, hlength⟩ := display_is_faithful a b
  exact ⟨hwidth, by decide +kernel, by decide +kernel, hlength hwidth⟩

end Bits
end RiscvSemantics
