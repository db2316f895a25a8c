import RiscvSemantics.Proofs.Json.Codec
import RiscvSemantics.Proofs.Json.Parts

namespace RiscvSemantics

open Json

namespace Bits

variable {a : Bits} {text : String} {width value : Nat}

section Texts

variable {bytes rest : List UInt8} {isFirst : Bool} {title name name' : String} {n n' : Nat}

theorem octets_repr (n : Nat) : octets n.repr = decimal n := by
  rw [← Nat.toString_eq_repr, Nat.toString_eq_ofList_toDigits]
  apply octets_ofList
  intro c hc
  obtain ⟨d, hd, rfl⟩ := Text.exists_of_mem_toDigits (by decide) hc
  have hdigit : ∀ d < 10, (Nat.digitChar d).utf8Size = 1 := by decide
  exact hdigit d hd

theorem octets_memberText : octets (memberText (name, n)) ++ rest =
    '\x22'.toUInt8 :: (octets name ++ '\x22'.toUInt8 :: ':'.toUInt8 :: (decimal n ++ rest)) := by
  have hquote : octets "\"" = ['\x22'.toUInt8] := by decide
  have hcolon : octets "\":" = ['\x22'.toUInt8, ':'.toUInt8] := by decide
  simp [memberText, octets_append, octets_repr, hquote, hcolon]

/-- A map of two members, without white space. -/
theorem octets_write {first second : String × Nat} : octets (codec.write title [first, second]) =
    '{'.toUInt8 :: (octets (memberText first) ++ ','.toUInt8 :: (octets (memberText second) ++ ['}'.toUInt8])) := by
  have hopen : octets "\x7b" = ['{'.toUInt8] := by decide
  have hcomma : octets "," = [','.toUInt8] := by decide
  have hclose : octets "\x7d" = ['}'.toUInt8] := by decide
  have hwrite : codec.write title [first, second] =
      "\x7b" ++ (memberText first ++ "," ++ memberText second) ++ "\x7d" := rfl
  simp [hwrite, octets_append, hopen, hcomma, hclose]

theorem key_of_separated (hname : name ∈ ["width", "bits"]) (hfront : Separated isFirst bytes
    ('\x22'.toUInt8 :: (octets name ++ '\x22'.toUInt8 :: ':'.toUInt8 :: rest))) : Key isFirst bytes name rest := by
  have hplain : ∀ name ∈ ["width", "bits"], ∀ b ∈ octets name,
      b ≠ '\x22'.toUInt8 ∧ ¬ b < 0x20 ∧ b ≠ '\\'.toUInt8 := by decide +kernel
  exact ⟨hfront, quoted_of_plain (hplain name hname), .refl _⟩

/-- A comma or a brace ends a number. -/
theorem whole_decimal {mark : UInt8} (hmark : mark ∈ [','.toUInt8, '}'.toUInt8]) :
    Whole (decimal n ++ mark :: rest) n (mark :: rest) := by
  have hends : ∀ mark ∈ [','.toUInt8, '}'.toUInt8], isDigit mark = false ∧ mark ≠ '.'.toUInt8 ∧
      mark ≠ 'e'.toUInt8 ∧ mark ≠ 'E'.toUInt8 := by decide +kernel
  obtain ⟨hdigit, hpoint, hsmall, hlarge⟩ := hends mark hmark
  refine ⟨.refl _, ?_, mt Option.some.inj hpoint, mt Option.some.inj hsmall, mt Option.some.inj hlarge⟩
  rintro b ⟨⟩
  exact hdigit

/-- The members of a map without white space. -/
theorem entries_write (hname : name ∈ ["width", "bits"])
    (hname' : name' ∈ ["width", "bits"]) :
    Entries true (octets (memberText (name, n)) ++ ','.toUInt8 :: (octets (memberText (name', n')) ++ ['}'.toUInt8]))
      [(name, n), (name', n')] ['}'.toUInt8] := by
  rw [octets_memberText]
  refine .number (key_of_separated hname (.refl _)) hname (whole_decimal (by decide)) ?_
  have hcomma : Separated false (','.toUInt8 :: (octets (memberText (name', n')) ++ ['}'.toUInt8]))
      (octets (memberText (name', n')) ++ ['}'.toUInt8]) := ⟨_, .refl _, .refl _⟩
  rw [octets_memberText] at hcomma ⊢
  refine .number (key_of_separated hname' hcomma) hname' (whole_decimal (by decide)) ?_
  exact .close (.refl _) rfl

end Texts

/-- A text ends if white space is all that is left. -/
theorem reads_finish {rest last : List UInt8} : Reads codec.finish rest () last ↔ Spaces rest [] ∧ last = [] := by
  have hfinish : codec.finish = (do if (← peekToken).isSome then throw .malformed : Reader Unit) := rfl
  rw [hfinish, reads_bind, spaces_nil_iff]
  constructor
  · rintro ⟨next, left, hnext, hend⟩
    obtain ⟨hdrop, rfl⟩ := reads_peekToken.mp hnext
    cases left with
    | nil =>
      obtain ⟨-, rfl⟩ := reads_pure.mp hend
      exact ⟨hdrop, rfl⟩
    | cons b others => exact absurd hend reads_throw
  · rintro ⟨hdrop, rfl⟩
    exact ⟨none, [], reads_peekToken.mpr ⟨hdrop, rfl⟩, reads_pure.mpr ⟨rfl, rfl⟩⟩

/-- The texts that give a width and a value. -/
theorem codec_gives_iff : codec.Gives text width value ↔ Gives text width value := by
  have hread (rest : List UInt8) : codec.readParts.run (codec.start text) = .ok ((width, value), rest) ↔
      (width < UInt32.size ∧ value < UInt64.size) ∧ Parts (octets text) width value rest :=
    reads_uncheckedRecord
  constructor
  · rintro ⟨rest, last, hparts, hfinish⟩
    obtain ⟨⟨hwidth, hvalue⟩, hparts⟩ := (hread rest).mp hparts
    exact ⟨hwidth, hvalue, rest, hparts, (reads_finish.mp hfinish).1⟩
  · rintro ⟨hwidth, hvalue, rest, hparts, hspaces⟩
    exact ⟨rest, [], (hread rest).mpr ⟨⟨hwidth, hvalue⟩, hparts⟩, reads_finish.mpr ⟨hspaces, rfl⟩⟩

/-- A vector is read from the texts in one of the two forms, and from no others. -/
theorem ofJson_eq_ok_iff : ofJson text = .ok a ↔ Gives text a.width a.toNat :=
  deserialize_eq_ok_iff.trans codec_gives_iff

/-- What is written as a map is read again. -/
theorem codec_lawful : codec.Lawful where
  gives := fun {title _ _} hwidth hvalue => by
    refine codec_gives_iff.mpr ⟨hwidth, hvalue, [], ?_, .refl _⟩
    rw [octets_write]
    exact .map (.refl _) (entries_write (by decide) (by decide)) (.inl rfl) (.refl _)
  gives_swapped := fun {title _ _} hwidth hvalue => by
    refine codec_gives_iff.mpr ⟨hwidth, hvalue, [], ?_, .refl _⟩
    rw [octets_write]
    exact .map (.refl _) (entries_write (by decide) (by decide)) (.inr rfl) (.refl _)

/-- A vector that is written is read again, and what is read stands in the text as it is, in every
    format that keeps numbers. A width that is too large and a value that does not fit are refused,
    the width first, and nothing is cut, in whatever order they stand. -/
theorem json_is_checked {τ ε : Type} {format : Codec τ ε} (hformat : format.Lawful) :
    (∀ a : Bits, deserialize format (serialize format a) = .ok a) ∧
      (∀ {a : Bits} {text : String}, deserialize format text = .ok a →
        (a.width ≤ 64 ∧ a.toNat < 2 ^ a.width) ∧ format.Gives text a.width a.toNat) ∧
      (∀ {text : String} {width value : Nat}, format.Gives text width value → Judged format text width value) ∧
      (∀ {title : String} {width value : Nat}, width < UInt32.size → value < UInt64.size →
        Judged format (format.write title [("width", width), ("bits", value)]) width value ∧
          Judged format (format.write title [("bits", value), ("width", width)]) width value) ∧
      (∀ a : Bits, Stored.serialize format (Stored.of a) = serialize format a) ∧
      ∀ (width : BitVec 32) (bits : BitVec 64),
        Stored.ofParts width bits = .ok ((ofParts width.toNat bits.toNat).map Stored.of) := by
  refine ⟨fun a => ?_, fun {a text} hread => ?_, judged, fun hwidth hvalue => ?_, fun a => ?_, Stored.ofParts_eq⟩
  · exact deserialize_eq_ok_iff.mpr (hformat.gives a.width_lt_word a.toNat_lt_word)
  · exact ⟨⟨a.width_le, a.value.isLt⟩, deserialize_eq_ok_iff.mp hread⟩
  · exact ⟨judged (hformat.gives hwidth hvalue), judged (hformat.gives_swapped hwidth hvalue)⟩
  · have hholds := Stored.holds_of a
    rw [Stored.serialize, hholds.width, hholds.unsigned, serialize]

/-- Twelve bits as a map; four that five bits are given for; and a width that there is none of. -/
theorem json_is_checked_twelve_bits :
    let a : Bits := ⟨12, 2748#12, by decide⟩
    codec.Lawful ∧ a.toJson = "\x7b\"width\":12,\"bits\":2748\x7d" ∧ ofJson a.toJson = .ok a ∧
      ofJson "\x7b\"bits\":16,\"width\":4\x7d" =
        .error (.unacceptable (.invalidValue (.unsigned 16) "a value that fits in 4 bits")) ∧
      ofJson "\x7b\"width\":65,\"bits\":0\x7d" =
        .error (.unacceptable (.invalidValue (.unsigned 65) "a width of at most 64 bits")) := by
  intro a
  have hstray : codec.write "" [("bits", 16), ("width", 4)] = "\x7b\"bits\":16,\"width\":4\x7d" := by
    decide +kernel
  have hwide : codec.write "" [("width", 65), ("bits", 0)] = "\x7b\"width\":65,\"bits\":0\x7d" := by
    decide +kernel
  obtain ⟨hagain, -, -, hjudged, -⟩ := json_is_checked codec_lawful
  obtain ⟨-, hfour⟩ := @hjudged "" 4 16 (by decide) (by decide)
  obtain ⟨hlarge, -⟩ := @hjudged "" 65 0 (by decide) (by decide)
  rw [← hstray, ← hwide]
  exact ⟨codec_lawful, by decide +kernel, hagain a, hfour.stray (by decide) (by decide), hlarge.wide (by decide)⟩

end Bits

end RiscvSemantics
