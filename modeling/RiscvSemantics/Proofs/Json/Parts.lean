import RiscvSemantics.Json.Forms
import RiscvSemantics.Proofs.Json.Record

namespace RiscvSemantics

open Json

namespace Bits

/-- The whole numbers that the members of a map give under the two names of a vector, in their order. Under
    other names there may be anything. -/
inductive Entries : (isFirst : Bool) → List UInt8 → List (String × Nat) → List UInt8 → Prop where
  | close {isFirst : Bool} {text rest : List UInt8} (hspaces : Spaces text rest)
      (hclose : rest.head? = some '}'.toUInt8) : Entries isFirst text [] rest
  | number {isFirst : Bool} {text value more rest : List UInt8} {name : String} {n : Nat}
      {entries : List (String × Nat)} (hkey : Key isFirst text name value) (hname : name ∈ ["width", "bits"])
      (hvalue : Whole value n more) (hmore : Entries false more entries rest) :
    Entries isFirst text ((name, n) :: entries) rest
  | other {isFirst : Bool} {text value more rest : List UInt8} {name : String}
      {entries : List (String × Nat)} (hkey : Key isFirst text name value) (hname : name ∉ ["width", "bits"])
      (hvalue : Skipped .value value more) (hmore : Entries false more entries rest) :
    Entries isFirst text entries rest

/-- A map or a sequence that gives a width and a value, once each. -/
inductive Parts (text : List UInt8) (width value : Nat) (rest : List UInt8) : Prop where
  | map {members close : List UInt8} {entries : List (String × Nat)} (hopen : Spaces text ('{'.toUInt8 :: members))
      (hmembers : Entries true members entries close)
      (hentries : entries = [("width", width), ("bits", value)] ∨ entries = [("bits", value), ("width", width)])
      (hclose : Spaces close ('}'.toUInt8 :: rest))
  | sequence {first comma second close : List UInt8} (hopen : Spaces text ('['.toUInt8 :: first))
      (hwidth : Whole first width comma) (hcomma : Spaces comma (','.toUInt8 :: second))
      (hvalue : Whole second value close) (hclose : Spaces close (']'.toUInt8 :: rest))

/-- A text that gives a width and a value that fit machine words, and nothing else. -/
def Gives (text : String) (width value : Nat) : Prop :=
  width < UInt32.size ∧ value < UInt64.size ∧ ∃ rest, Parts (octets text) width value rest ∧ Spaces rest []

/-- What has been read so far, behind the given entries. No field is read twice. -/
inductive Collects : Unchecked → List (String × Nat) → Unchecked → Prop where
  | nil {r : Unchecked} : Collects r [] r
  | width {value : Option Nat} {n : Nat} {entries : List (String × Nat)} {r : Unchecked} (hn : n < UInt32.size)
      (hmore : Collects ⟨some n, value⟩ entries r) : Collects ⟨none, value⟩ (("width", n) :: entries) r
  | value {width : Option Nat} {n : Nat} {entries : List (String × Nat)} {r : Unchecked} (hn : n < UInt64.size)
      (hmore : Collects ⟨width, some n⟩ entries r) : Collects ⟨width, none⟩ (("bits", n) :: entries) r

variable {text rest value more : List UInt8} {expected name : String} {width n limit : Nat} {isFirst : Bool}
  {r r' : Unchecked} {entries : List (String × Nat)}

theorem collects_all_iff : Collects ⟨none, none⟩ entries ⟨some width, some n⟩ ↔
    (width < UInt32.size ∧ n < UInt64.size) ∧
      (entries = [("width", width), ("bits", n)] ∨ entries = [("bits", n), ("width", width)]) := by
  constructor
  · intro h
    cases h with
    | width hwidth hmore =>
      cases hmore with
      | value hn hmore =>
        cases hmore
        exact ⟨⟨hwidth, hn⟩, .inl rfl⟩
    | value hn hmore =>
      cases hmore with
      | width hwidth hmore =>
        cases hmore
        exact ⟨⟨hwidth, hn⟩, .inr rfl⟩
  · rintro ⟨⟨hwidth, hn⟩, rfl | rfl⟩
    · exact .width hwidth (.value hn .nil)
    · exact .value hn (.width hwidth .nil)

theorem member_width_iff : Member uncheckedRecord.fields "width" r value r' more ↔
    r.width = none ∧ ∃ n < UInt32.size, Whole value n more ∧ { r with width := some n } = r' := by
  have hfield : uncheckedRecord.fields.find? (·.name == "width") = uncheckedRecord.fields[0] := rfl
  have hsize : UInt32.size ≤ UInt64.size := by decide
  rw [member_iff_of_some hfield]
  simp [uncheckedRecord, reads_readUnsigned hsize, and_assoc]

theorem member_bits_iff : Member uncheckedRecord.fields "bits" r value r' more ↔
    r.value = none ∧ ∃ n < UInt64.size, Whole value n more ∧ { r with value := some n } = r' := by
  have hfield : uncheckedRecord.fields.find? (·.name == "bits") = uncheckedRecord.fields[1] := rfl
  rw [member_iff_of_some hfield]
  simp [uncheckedRecord, reads_readUnsigned, and_assoc]

theorem member_other_iff (hname : name ∉ ["width", "bits"]) : Member uncheckedRecord.fields name r value r' more ↔
    r = r' ∧ Skipped .value value more := by
  apply member_iff_of_none
  have hne : name ≠ "width" ∧ name ≠ "bits" := by simpa using hname
  simp [uncheckedRecord, hne.1.symm, hne.2.symm]

/-- What the members of a map leave behind is what they give, in their order. -/
theorem exists_entries_of_reads (h : Reads (readMembers uncheckedRecord.fields limit isFirst r) text r' rest) :
    ∃ entries, Entries isFirst text entries rest ∧ Collects r entries r' := by
  induction limit generalizing isFirst r text with
  | zero => exact absurd h reads_throw
  | succ limit ih =>
    obtain ⟨rfl, hspaces, hclose⟩ | ⟨name, value, next, more, hkey, hmember, hmore⟩ := reads_readMembers_succ.mp h
    · exact ⟨[], .close hspaces hclose, .nil⟩
    · obtain ⟨entries, hentries, hcollects⟩ := ih hmore
      by_cases hname : name ∈ ["width", "bits"]
      · obtain rfl | rfl : name = "width" ∨ name = "bits" := by simpa using hname
        · obtain ⟨hnew, n, hn, hvalue, rfl⟩ := member_width_iff.mp hmember
          obtain ⟨_, _⟩ := r
          obtain rfl := hnew
          exact ⟨_, .number hkey hname hvalue hentries, .width hn hcollects⟩
        · obtain ⟨hnew, n, hn, hvalue, rfl⟩ := member_bits_iff.mp hmember
          obtain ⟨_, _⟩ := r
          obtain rfl := hnew
          exact ⟨_, .number hkey hname hvalue hentries, .value hn hcollects⟩
      · obtain ⟨rfl, hvalue⟩ := (member_other_iff hname).mp hmember
        exact ⟨entries, .other hkey hname hvalue hentries, hcollects⟩

/-- Every member takes something off the text, so that the limit is not reached. -/
theorem Entries.reads (h : Entries isFirst text entries rest) (hcollects : Collects r entries r')
    (hlimit : text.length < limit) : Reads (readMembers uncheckedRecord.fields limit isFirst r) text r' rest := by
  induction h generalizing r limit with
  | close hspaces hclose =>
    obtain ⟨limit, rfl⟩ := Nat.exists_eq_succ_of_ne_zero (Nat.ne_zero_of_lt hlimit)
    cases hcollects
    exact reads_readMembers_succ.mpr (.inl ⟨rfl, hspaces, hclose⟩)
  | number hkey hname hvalue _ ih =>
    obtain ⟨limit, rfl⟩ := Nat.exists_eq_succ_of_ne_zero (Nat.ne_zero_of_lt hlimit)
    have hlength := hkey.length_lt
    have hshorter := hvalue.length_le
    refine reads_readMembers_succ.mpr (.inr ?_)
    cases hcollects with
    | width hn hmore =>
      exact ⟨_, _, _, _, hkey, member_width_iff.mpr ⟨rfl, _, hn, hvalue, rfl⟩, ih hmore (by omega)⟩
    | value hn hmore =>
      exact ⟨_, _, _, _, hkey, member_bits_iff.mpr ⟨rfl, _, hn, hvalue, rfl⟩, ih hmore (by omega)⟩
  | other hkey hname hvalue _ ih =>
    obtain ⟨limit, rfl⟩ := Nat.exists_eq_succ_of_ne_zero (Nat.ne_zero_of_lt hlimit)
    have hlength := hkey.length_lt
    have hshorter := hvalue.length_le
    refine reads_readMembers_succ.mpr (.inr ?_)
    exact ⟨_, _, _, _, hkey, (member_other_iff hname).mpr ⟨rfl, hvalue⟩, ih hcollects (by omega)⟩

theorem finish_eq_ok_iff : uncheckedRecord.finish r = .ok (width, n) ↔ r = ⟨some width, some n⟩ := by
  obtain ⟨width', value'⟩ := r
  cases width' with
  | none => exact ⟨nofun, nofun⟩
  | some width' =>
    cases value' with
    | none => exact ⟨nofun, nofun⟩
    | some value' =>
      constructor
      · rintro ⟨⟩
        rfl
      · rintro ⟨⟩
        rfl

/-- The two fields of a sequence. -/
theorem reads_elements : Reads (readElements expected 0 uncheckedRecord.fields uncheckedRecord.empty) text
      ⟨some width, some n⟩ rest ↔
    (width < UInt32.size ∧ n < UInt64.size) ∧
      ∃ comma second, Whole text width comma ∧ Spaces comma (','.toUInt8 :: second) ∧ Whole second n rest := by
  have hsize : UInt32.size ≤ UInt64.size := by decide
  have hreads : Reads (readElements expected 0 uncheckedRecord.fields uncheckedRecord.empty) text
        ⟨some width, some n⟩ rest ↔
      ∃ first, Reads (hasElement true) text true first ∧ ∃ comma, (width < UInt32.size ∧ Whole first width comma) ∧
        ∃ second, Reads (hasElement false) comma true second ∧ n < UInt64.size ∧ Whole second n rest := by
    simp [uncheckedRecord, readElements, reads_readUnsigned hsize, reads_readUnsigned (Nat.le_refl _)]
  rw [hreads]
  constructor
  · rintro ⟨first, hfirst, comma, ⟨hwidth, hfirst'⟩, second, hsecond, hn, hsecond'⟩
    obtain ⟨next, hcomma, hnext⟩ := exists_next_whole_iff.mp ⟨second, hsecond, hsecond'⟩
    exact ⟨⟨hwidth, hn⟩, comma, next, exists_first_whole_iff.mp ⟨first, hfirst, hfirst'⟩, hcomma, hnext⟩
  · rintro ⟨⟨hwidth, hn⟩, comma, next, hfirst, hcomma, hnext⟩
    obtain ⟨first, hfirst, hfirst'⟩ := exists_first_whole_iff.mpr hfirst
    obtain ⟨second, hsecond, hsecond'⟩ := exists_next_whole_iff.mpr ⟨next, hcomma, hnext⟩
    exact ⟨first, hfirst, comma, ⟨hwidth, hfirst'⟩, second, hsecond, hn, hsecond'⟩

/-- A width and a value are read if they are given in one of the two forms, and not otherwise. -/
theorem reads_uncheckedRecord : Reads uncheckedRecord.read text (width, n) rest ↔
    (width < UInt32.size ∧ n < UInt64.size) ∧ Parts text width n rest := by
  have hbracket : isSpace ']'.toUInt8 = false := by decide
  have hbrace : isSpace '}'.toUInt8 = false := by decide
  rw [Record.read, reads_requireToken_bind]
  constructor
  · rintro ⟨b, behind, hspaces, -, h⟩
    split at h
    case isTrue hb =>
      obtain ⟨close, ⟨hsizes, comma, second, hfirst, hcomma, hsecond⟩, hclose⟩ : ∃ close,
          ((width < UInt32.size ∧ n < UInt64.size) ∧ ∃ comma second, Whole behind width comma ∧
            Spaces comma (','.toUInt8 :: second) ∧ Whole second n close) ∧
          Spaces close (']'.toUInt8 :: rest) := by
        simpa [finish_eq_ok_iff, reads_elements, reads_readClose hbracket] using h
      exact ⟨hsizes, .sequence (eq_of_beq hb ▸ hspaces) hfirst hcomma hsecond hclose⟩
    split at h
    case isTrue hb =>
      obtain ⟨close, hmembers, hclose⟩ : ∃ close,
          Reads (readMembers uncheckedRecord.fields (behind.length + 1) true uncheckedRecord.empty) behind
            ⟨some width, some n⟩ close ∧ Spaces close ('}'.toUInt8 :: rest) := by
        simpa [finish_eq_ok_iff, reads_readClose hbrace] using h
      obtain ⟨entries, hentries, hcollects⟩ := exists_entries_of_reads hmembers
      obtain ⟨hsizes, hboth⟩ := collects_all_iff.mp hcollects
      exact ⟨hsizes, .map (eq_of_beq hb ▸ hspaces) hentries hboth hclose⟩
    case isFalse => exact absurd h reads_rejectType
  · rintro ⟨hsizes, ⟨hopen, hmembers, hboth, hclose⟩ | ⟨hopen, hfirst, hcomma, hsecond, hclose⟩⟩
    · have hreads := hmembers.reads (collects_all_iff.mpr ⟨hsizes, hboth⟩) (Nat.lt_succ_self _)
      refine ⟨_, _, hopen, by decide, ?_⟩
      simpa +decide [finish_eq_ok_iff, reads_readClose hbrace] using ⟨_, hreads, hclose⟩
    · refine ⟨_, _, hopen, by decide, ?_⟩
      simpa [finish_eq_ok_iff, reads_elements, reads_readClose hbracket] using
        ⟨_, ⟨hsizes, _, hfirst, _, hcomma, hsecond⟩, hclose⟩

end Bits
end RiscvSemantics
