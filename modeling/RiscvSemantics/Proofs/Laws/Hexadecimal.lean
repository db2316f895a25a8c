import RiscvSemantics.Proofs.Laws.Display
import RiscvSemantics.Proofs.Laws.Slice

namespace RiscvSemantics.Bits

/-- A text that shows the value of a vector in base 16 and nothing else, in as many digits as the value
    needs and one at least. With zeros in front it is the padded text, which has all digits of the width. -/
structure Unpadded (alphabet text padded : String) (a : Bits) : Prop where
  digits : ∀ c ∈ text.toList, c ∈ alphabet.toList
  value : Text.readNumeral 16 UInt64.size text.toList = .ok a.toNat
  length_le_iff : ∀ places, 0 < places → (text.length ≤ places ↔ a.toNat < 16 ^ places)
  padded_eq : ∃ zeros, padded.toList = List.replicate zeros '0' ++ text.toList
  length_padded : padded.length = max 1 ((a.width + 3) / 4)

namespace Unpadded

variable {alphabet text padded : String} {a : Bits}

theorem length_pos (h : Unpadded alphabet text padded a) : 0 < text.length := by
  rw [← String.length_toList, List.length_pos_iff]
  intro hempty
  have hvalue := h.value
  rw [hempty] at hvalue
  cases hvalue

theorem length_le (h : Unpadded alphabet text padded a) : text.length ≤ max 1 ((a.width + 3) / 4) := by
  obtain ⟨zeros, hpadded⟩ := h.padded_eq
  have hlength := congrArg List.length hpadded
  rw [String.length_toList, h.length_padded, List.length_append, String.length_toList] at hlength
  omega

/-- Nothing is missing if one digit is enough or the first digit of the width is not zero. -/
theorem length_eq_iff (h : Unpadded alphabet text padded a) :
    text.length = max 1 ((a.width + 3) / 4) ↔ a.width ≤ 4 ∨ 16 ^ ((a.width + 3) / 4 - 1) ≤ a.toNat := by
  have hpos := h.length_pos
  have hle := h.length_le
  by_cases hwidth : a.width ≤ 4
  · exact iff_of_true (by omega) (.inl hwidth)
  · have hshorter := h.length_le_iff ((a.width + 3) / 4 - 1) (by omega)
    rw [or_iff_right hwidth, ← Nat.not_lt, ← hshorter]
    omega

end Unpadded

section Spelled

variable {spell : Char → Char}

theorem unpadded_of_spells {alphabet : String} (hspell : Text.Spells 16 spell) (hzero : spell '0' = '0')
    (halphabet : ∀ d < 16, spell (Nat.digitChar d) ∈ alphabet.toList) (a : Bits) :
    Unpadded alphabet (String.ofList ((Text.digits 16 1 a.toNat).map spell))
      (String.ofList ((Text.digits 16 (hexPlaces a.width) a.toNat).map spell)) a where
  digits := by
    intro c hc
    rw [String.toList_ofList] at hc
    obtain ⟨digit, hdigit, rfl⟩ := List.mem_map.mp hc
    obtain ⟨d, hd, rfl⟩ := Text.exists_of_mem_digits (by decide) hdigit
    exact halphabet d hd
  value := by
    rw [String.toList_ofList]
    exact Text.readNumeral_digits hspell (by decide) a.toNat_lt_word
  length_le_iff := by
    intro places hplaces
    rw [String.length_ofList, List.length_map, Text.digits_one]
    exact Nat.length_toDigits_le_iff (by decide) hplaces
  padded_eq := by
    rw [String.toList_ofList, String.toList_ofList, Text.digits_one, Text.digits, List.map_append,
      List.map_replicate, hzero]
    exact ⟨_, rfl⟩
  length_padded := by
    have hplaces : 0 < hexPlaces a.width := Nat.le_max_left ..
    rw [String.length_ofList, List.length_map, Text.length_digits (by decide) hplaces a.toNat_lt_places]
    rfl

theorem unpadded_lower (a : Bits) :
    Unpadded "0123456789abcdef" a.hexLower (Text.hex (hexPlaces a.width) a.toNat) a := by
  have halphabet : ∀ d < 16, id (Nat.digitChar d) ∈ "0123456789abcdef".toList := by decide
  have hunpadded := unpadded_of_spells Text.spells_hexLower rfl halphabet a
  rwa [List.map_id, List.map_id] at hunpadded

theorem unpadded_upper (a : Bits) :
    Unpadded "0123456789ABCDEF" a.hexUpper (Text.hexUpper (hexPlaces a.width) a.toNat) a :=
  unpadded_of_spells Text.spells_hexUpper rfl mem_upper_of_lt a

/-- The digits of the vector below are all written, unless there is nothing in front of them. -/
theorem digits_join (high low : Bits) (hfits : high.width + low.width ≤ 64) (hpositive : 0 < low.width)
    (hnibbles : low.width % 4 = 0) :
    Text.digits 16 1 (high.join low hfits).toNat =
      if high.toNat = 0 then Text.digits 16 1 low.toNat
      else Text.digits 16 1 high.toNat ++ Text.digits 16 (low.width / 4) low.toNat := by
  have hwidth : low.width = 4 * (low.width / 4) := by omega
  have hpow : 2 ^ low.width = 16 ^ (low.width / 4) := by
    calc
      2 ^ low.width = 2 ^ (4 * (low.width / 4)) := congrArg _ hwidth
      _ = 16 ^ (low.width / 4) := Nat.pow_mul 2 4 _
  have hlow : low.toNat < 16 ^ (low.width / 4) := hpow ▸ low.value.isLt
  rw [toNat_join, hpow]
  split
  case isTrue hzero => rw [hzero, Nat.zero_mul, Nat.zero_add]
  case isFalse hne =>
    rw [Text.digits_one, Text.digits_one]
    exact Text.toDigits_mul_pow_add (by decide) (Nat.pos_of_ne_zero hne) (by omega) hlow

end Spelled

/-- The texts of two vectors that are joined, in digits of either case. The number above is written as it is
    and the one below with all its digits, unless the number above is zero. -/
structure JoinsUnpadded (high low joined : Bits) : Prop where
  lower : joined.hexLower =
    if high.toNat = 0 then low.hexLower else high.hexLower ++ Text.hex (low.width / 4) low.toNat
  upper : joined.hexUpper =
    if high.toNat = 0 then low.hexUpper else high.hexUpper ++ Text.hexUpper (low.width / 4) low.toNat

theorem joins_of_concat {high low joined : Bits} (hconcat : high.concat low = .ok joined)
    (hpositive : 0 < low.width) (hnibbles : low.width % 4 = 0) : JoinsUnpadded high low joined := by
  have hfits : high.width + low.width ≤ 64 := by
    by_contra hnot
    rw [concat, dif_neg hnot] at hconcat
    cases hconcat
  obtain rfl : high.join low hfits = joined := by
    rw [concat, dif_pos hfits] at hconcat
    exact Except.ok.inj hconcat
  have hdigits := digits_join high low hfits hpositive hnibbles
  constructor
  case lower =>
    simp only [hexLower, Text.hex, hdigits]
    split
    case isTrue => rfl
    case isFalse => rw [String.ofList_append]
  case upper =>
    simp only [hexUpper, Text.hexUpper, hdigits]
    split
    case isTrue => rfl
    case isFalse => rw [List.map_append, String.ofList_append]

/-- The plain texts in base 16 show the value and not the width. They can be read again and have no zeros in
    front, so they have all digits of the width only if one is enough or the first of them is not zero; and
    in the text of two vectors that are joined the digits of the one above are missing if it is zero. -/
theorem hex_is_unpadded (a : Bits) :
    Unpadded "0123456789abcdef" a.hexLower (Text.hex (hexPlaces a.width) a.toNat) a ∧
      Unpadded "0123456789ABCDEF" a.hexUpper (Text.hexUpper (hexPlaces a.width) a.toNat) a ∧
      (∀ text ∈ [a.hexLower, a.hexUpper], text.length ≤ max 1 ((a.width + 3) / 4) ∧
        (text.length = max 1 ((a.width + 3) / 4) ↔
          a.width ≤ 4 ∨ 16 ^ ((a.width + 3) / 4 - 1) ≤ a.toNat)) ∧
      (∀ b : Bits, a.hexLower = b.hexLower ↔ a.toNat = b.toNat) ∧
      ∀ low joined, a.concat low = .ok joined → 0 < low.width → low.width % 4 = 0 → JoinsUnpadded a low joined := by
  have hlower := a.unpadded_lower
  have hupper := a.unpadded_upper
  refine ⟨hlower, hupper, ?_, fun b => ⟨fun hsame => ?_, fun hsame => ?_⟩, fun low joined => joins_of_concat⟩
  · intro text htext
    obtain rfl | rfl : text = a.hexLower ∨ text = a.hexUpper := by simpa using htext
    · exact ⟨hlower.length_le, hlower.length_eq_iff⟩
    · exact ⟨hupper.length_le, hupper.length_eq_iff⟩
  · have hvalue := b.unpadded_lower.value
    rw [← hsame, hlower.value] at hvalue
    exact Except.ok.inj hvalue
  · rw [hexLower, hexLower, hsame]

/-- A byte below another is written with its zero. -/
theorem hex_is_unpadded_joined :
    let high : Bits := ⟨8, 1#8, by decide⟩
    let low : Bits := ⟨8, 10#8, by decide⟩
    let joined : Bits := ⟨16, 0x010a#16, by decide⟩
    high.concat low = .ok joined ∧ 0 < low.width ∧ low.width % 4 = 0 ∧
      joined.hexLower = high.hexLower ++ Text.hex 2 low.toNat := by
  intro high low joined
  have hconcat : high.concat low = .ok joined := by decide
  have hpositive : 0 < low.width := by decide
  have hnibbles : low.width % 4 = 0 := by decide
  obtain ⟨-, -, -, -, hjoins⟩ := hex_is_unpadded high
  have hlower := (hjoins low joined hconcat hpositive hnibbles).lower
  have hplaces : low.width / 4 = 2 := by decide
  rw [if_neg (by decide), hplaces] at hlower
  exact ⟨hconcat, hpositive, hnibbles, hlower⟩

/-- Sixteen bits are not always written with four digits, nor are vectors of one width equally long, nor do the
    texts of two bytes make up that of both. -/
theorem leading_zero_unwritten :
    let a : Bits := ⟨16, 0x000a#16, by decide⟩
    let b : Bits := ⟨16, 0xbeef#16, by decide⟩
    let byte : Bits := ⟨8, 1#8, by decide⟩
    let joined : Bits := ⟨16, 0x0101#16, by decide⟩
    (a.hexLower = "a" ∧ a.hexUpper = "A" ∧ a.hexLower.length ≠ max 1 ((a.width + 3) / 4) ∧
        a.hexUpper.length ≠ max 1 ((a.width + 3) / 4)) ∧
      (a.width = b.width ∧ a.hexLower.length ≠ b.hexLower.length) ∧
      byte.concat byte = .ok joined ∧ joined.hexLower ≠ byte.hexLower ++ byte.hexLower := by
  decide +kernel

end RiscvSemantics.Bits
