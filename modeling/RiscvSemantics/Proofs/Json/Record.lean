import RiscvSemantics.Json.Record
import RiscvSemantics.Proofs.Json.Skip

namespace RiscvSemantics.Json

/-- A whole number, to its end, with white space in front of it. -/
def Whole (text : List UInt8) (n : Nat) (rest : List UInt8) : Prop :=
  Spaces text (decimal n ++ rest) ∧ Ends rest

/-- The name of a member of a map, up to where its value is to be found. -/
inductive Key (isFirst : Bool) (text : List UInt8) (name : String) (value : List UInt8) : Prop where
  | intro {quoted behind : List UInt8} (hfront : Separated isFirst text ('\x22'.toUInt8 :: quoted))
      (hname : Quoted Escape quoted (octets name) behind) (hcolon : Spaces behind (':'.toUInt8 :: value))

variable {ρ : Type} {text rest : List UInt8} {isFirst : Bool} {expected : String} {n limit : Nat} {r r' : ρ}
  {fields : List (Field ρ)}

/-- What becomes of a record at a member: it gains a field that it did not have, or stays as it is. -/
inductive Member (fields : List (Field ρ)) (name : String) (r : ρ) (value : List UInt8) : ρ → List UInt8 → Prop where
  | field {field : Field ρ} {r' : ρ} {rest : List UInt8} (hfield : fields.find? (·.name == name) = some field)
      (hnew : field.isSet r = false) (hvalue : Reads (field.read r) value r' rest) :
    Member fields name r value r' rest
  | other {rest : List UInt8} (hother : fields.find? (·.name == name) = none) (hvalue : Skipped .value value rest) :
    Member fields name r value r rest

theorem Key.length_lt {name : String} {value : List UInt8} (h : Key isFirst text name value) :
    value.length < text.length := by
  obtain ⟨hfront, hname, hcolon⟩ := h
  have hquote := hfront.length_le
  have hbehind := hname.length_lt leaves_readEscape
  have hvalue := hcolon.length_le
  rw [List.length_cons] at hquote hvalue
  omega

theorem Whole.length_le (h : Whole text n rest) : rest.length ≤ text.length := by
  have hdigits := h.1.length_le
  rw [List.length_append] at hdigits
  omega

section Members

variable {name : String} {value : List UInt8}

theorem member_iff_of_some {field : Field ρ} (hfield : fields.find? (·.name == name) = some field) :
    Member fields name r value r' rest ↔ field.isSet r = false ∧ Reads (field.read r) value r' rest := by
  constructor
  · intro h
    cases h with
    | field hfield' hnew hvalue =>
      obtain rfl := Option.some.inj (hfield.symm.trans hfield')
      exact ⟨hnew, hvalue⟩
    | other hother => cases hfield.symm.trans hother
  · rintro ⟨hnew, hvalue⟩
    exact .field hfield hnew hvalue

theorem member_iff_of_none (hother : fields.find? (·.name == name) = none) :
    Member fields name r value r' rest ↔ r = r' ∧ Skipped .value value rest := by
  constructor
  · intro h
    cases h with
    | field hfield => cases hfield.symm.trans hother
    | other _ hvalue => exact ⟨rfl, hvalue⟩
  · rintro ⟨rfl, hvalue⟩
    exact .other hother hvalue

end Members

section Refused

variable {α : Type} {a : α} {reason : Rejection}

@[simp] theorem reads_reject : ¬ Reads (reject reason : Reader α) text a rest :=
  reads_throw

@[simp] theorem reads_rejectType : ¬ Reads (rejectType expected : Reader α) text a rest := by
  simp [rejectType]

end Refused

theorem Number.exists_iff {p : Number → Prop} :
    (∃ x, p x) ↔ (∃ n, p (.unsigned n)) ∨ (∃ i, p (.negative i)) ∨ ∃ x, p (.float x) := by
  constructor
  · rintro ⟨n | i | x, h⟩
    · exact .inl ⟨n, h⟩
    · exact .inr (.inl ⟨i, h⟩)
    · exact .inr (.inr ⟨x, h⟩)
  · rintro (⟨n, h⟩ | ⟨i, h⟩ | ⟨x, h⟩)
    · exact ⟨_, h⟩
    · exact ⟨_, h⟩
    · exact ⟨_, h⟩

/-- The number that is read is one that is written out in the text. -/
theorem reads_readUnsigned (hlimit : limit ≤ UInt64.size) :
    Reads (readUnsigned limit expected) text n rest ↔ n < limit ∧ Whole text n rest := by
  rw [readUnsigned, reads_requireToken_bind]
  constructor
  · rintro ⟨b, behind, hspaces, -, h⟩
    by_cases hsign : b = '-'.toUInt8
    · simp [hsign, Number.exists_iff, reads_readNumber] at h
    · obtain ⟨-, ⟨-, htext, hends⟩, hbound⟩ : isDigit b ∧ (n < UInt64.size ∧ b :: behind = decimal n ++ rest ∧
          Ends rest) ∧ n < limit := by
        simpa [hsign, Number.exists_iff, reads_readNumber] using h
      exact ⟨hbound, htext ▸ hspaces, hends⟩
  · rintro ⟨hbound, hspaces, hends⟩
    obtain ⟨b, others, hn, hb⟩ := exists_digit_decimal n
    have hsign : b ≠ '-'.toUInt8 := by
      rintro rfl
      cases hb
    have hnumber : Reads (readNumber true) (decimal n ++ rest) (.unsigned n) rest :=
      reads_readNumber.mpr ⟨rfl, Nat.lt_of_lt_of_le hbound hlimit, rfl, hends⟩
    rw [hn, List.cons_append] at hspaces hnumber
    refine ⟨b, others ++ rest, hspaces, isSpace_of_isDigit hb, ?_⟩
    rw [if_pos (by simp [hb]), if_neg (by simp [hsign]), bne_iff_ne.mpr hsign]
    refine reads_bind.mpr ⟨_, rest, hnumber, ?_⟩
    exact reads_ite.mpr ((if_pos hbound).mpr (reads_pure.mpr ⟨rfl, rfl⟩))

theorem reads_hasElement : Reads (hasElement isFirst) text true rest ↔
    Separated isFirst text rest ∧ ∃ b behind, rest = b :: behind ∧ isSpace b = false ∧ b ≠ ']'.toUInt8 := by
  cases isFirst with
  | true =>
    have hreads : Reads (hasElement true) text true rest ↔ ∃ b behind, Spaces text (b :: behind) ∧
        isSpace b = false ∧ b ≠ ']'.toUInt8 ∧ b :: behind = rest := by
      simp [hasElement]
    rw [hreads]
    constructor
    · rintro ⟨b, behind, hspaces, hb, hend, rfl⟩
      exact ⟨hspaces, b, behind, rfl, hb, hend⟩
    · rintro ⟨hspaces, b, behind, rfl, hb, hend⟩
      exact ⟨b, behind, hspaces, hb, hend, rfl⟩
  | false =>
    have hreads : Reads (hasElement false) text true rest ↔ ∃ next, Spaces text (','.toUInt8 :: next) ∧
        ∃ b behind, Spaces next (b :: behind) ∧ isSpace b = false ∧ b ≠ ']'.toUInt8 ∧ b :: behind = rest := by
      simp +decide [hasElement]
    rw [hreads]
    constructor
    · rintro ⟨next, hcomma, b, behind, hspaces, hb, hend, rfl⟩
      exact ⟨⟨next, hcomma, hspaces⟩, b, behind, rfl, hb, hend⟩
    · rintro ⟨⟨next, hcomma, hspaces⟩, b, behind, rfl, hb, hend⟩
      exact ⟨next, hcomma, b, behind, hspaces, hb, hend, rfl⟩

theorem Whole.of_spaces {token : List UInt8} (hspaces : Spaces text token) (h : Whole token n rest) :
    Whole text n rest :=
  ⟨hspaces.trans h.1, h.2⟩

/-- The first digit of a number is neither white space nor the end of a sequence. -/
theorem Whole.exists_token (h : Whole text n rest) : ∃ token, Spaces text token ∧ Whole token n rest ∧
    ∃ b behind, token = b :: behind ∧ isSpace b = false ∧ b ≠ ']'.toUInt8 := by
  obtain ⟨hspaces, hends⟩ := h
  obtain ⟨b, others, hn, hb⟩ := exists_digit_decimal n
  refine ⟨decimal n ++ rest, hspaces, ⟨.refl _, hends⟩, b, others ++ rest, ?_, isSpace_of_isDigit hb, ?_⟩
  · rw [hn, List.cons_append]
  · rintro rfl
    cases hb

theorem exists_first_whole_iff :
    (∃ token, Reads (hasElement true) text true token ∧ Whole token n rest) ↔ Whole text n rest := by
  constructor
  · rintro ⟨token, helement, hvalue⟩
    exact .of_spaces (reads_hasElement.mp helement).1 hvalue
  · intro hvalue
    obtain ⟨token, hspaces, htoken, hhead⟩ := hvalue.exists_token
    exact ⟨token, reads_hasElement.mpr ⟨hspaces, hhead⟩, htoken⟩

theorem exists_next_whole_iff : (∃ token, Reads (hasElement false) text true token ∧ Whole token n rest) ↔
    ∃ next, Spaces text (','.toUInt8 :: next) ∧ Whole next n rest := by
  constructor
  · rintro ⟨token, helement, hvalue⟩
    obtain ⟨⟨next, hcomma, hspaces⟩, -⟩ := reads_hasElement.mp helement
    exact ⟨next, hcomma, .of_spaces hspaces hvalue⟩
  · rintro ⟨next, hcomma, hvalue⟩
    obtain ⟨token, hspaces, htoken, hhead⟩ := hvalue.exists_token
    exact ⟨token, reads_hasElement.mpr ⟨⟨next, hcomma, hspaces⟩, hhead⟩, htoken⟩

theorem reads_hasMember_true :
    Reads (hasMember isFirst) text true rest ↔ Separated isFirst text ('\x22'.toUInt8 :: rest) := by
  cases isFirst with
  | true =>
    have hreads : Reads (hasMember true) text true rest ↔ ∃ b behind, Spaces text (b :: behind) ∧
        isSpace b = false ∧ b ≠ '}'.toUInt8 ∧ Spaces (b :: behind) ('\x22'.toUInt8 :: rest) := by
      simp +decide [hasMember]
    rw [hreads]
    constructor
    · rintro ⟨b, behind, hspaces, -, -, hquote⟩
      exact hspaces.trans hquote
    · intro hspaces
      exact ⟨_, _, hspaces, by decide, by decide, .refl _⟩
  | false => simp +decide [hasMember, Separated]

theorem reads_hasMember_false :
    Reads (hasMember isFirst) text false rest ↔ Spaces text rest ∧ rest.head? = some '}'.toUInt8 := by
  have hreads : Reads (hasMember isFirst) text false rest ↔
      ∃ behind, Spaces text ('}'.toUInt8 :: behind) ∧ '}'.toUInt8 :: behind = rest := by
    simp +decide [hasMember]
  rw [hreads, List.head?_eq_some_iff]
  constructor
  · rintro ⟨behind, hspaces, rfl⟩
    exact ⟨hspaces, behind, rfl⟩
  · rintro ⟨hspaces, behind, rfl⟩
    exact ⟨behind, hspaces, rfl⟩

@[simp] theorem reads_make {α : Type} {record : Record ρ α} {a : α} :
    Reads (record.make r) text a rest ↔ record.finish r = .ok a ∧ text = rest := by
  rw [Record.make]
  cases record.finish r with
  | ok a => simp
  | error reason => simp

theorem reads_readClose {mark : Char} (hmark : isSpace mark.toUInt8 = false) {u : Unit} :
    Reads (readClose mark) text u rest ↔ Spaces text (mark.toUInt8 :: rest) := by
  simp [readClose, hmark]

/-- What one member does. -/
theorem reads_readMembers_succ : Reads (readMembers fields (limit + 1) isFirst r) text r' rest ↔
    (r = r' ∧ Spaces text rest ∧ rest.head? = some '}'.toUInt8) ∨
      ∃ name value next more, Key isFirst text name value ∧ Member fields name r value next more ∧
        Reads (readMembers fields limit false next) more r' rest := by
  rw [readMembers, reads_bind]
  constructor
  · rintro ⟨goes, middle, hgoes, h⟩
    cases goes with
    | false =>
      obtain ⟨rfl, rfl⟩ := reads_pure.mp h
      exact .inl ⟨rfl, reads_hasMember_false.mp hgoes⟩
    | true =>
      have hfront := reads_hasMember_true.mp hgoes
      rw [if_pos rfl, reads_bind] at h
      obtain ⟨name, behind, hname, h⟩ := h
      rw [reads_readString] at hname
      cases hfield : fields.find? (·.name == name) with
      | some field =>
        obtain ⟨hnew, value, hcolon, next, more, hvalue, hmore⟩ : field.isSet r = false ∧ ∃ value,
            Spaces behind (':'.toUInt8 :: value) ∧ ∃ next more, Reads (field.read r) value next more ∧
            Reads (readMembers fields limit false next) more r' rest := by
          simpa +decide [hfield] using h
        exact .inr ⟨name, value, next, more, ⟨hfront, hname, hcolon⟩, .field hfield hnew hvalue, hmore⟩
      | none =>
        obtain ⟨value, hcolon, more, hvalue, hmore⟩ : ∃ value, Spaces behind (':'.toUInt8 :: value) ∧ ∃ more,
            Skipped .value value more ∧ Reads (readMembers fields limit false r) more r' rest := by
          simpa +decide [hfield, reads_skipValue] using h
        exact .inr ⟨name, value, r, more, ⟨hfront, hname, hcolon⟩, .other hfield hvalue, hmore⟩
  · rintro (⟨rfl, hspaces, hhead⟩ | ⟨name, value, next, more, ⟨hfront, hname, hcolon⟩, hmember, hmore⟩)
    · exact ⟨false, rest, reads_hasMember_false.mpr ⟨hspaces, hhead⟩, reads_pure.mpr ⟨rfl, rfl⟩⟩
    · refine ⟨true, _, reads_hasMember_true.mpr hfront, ?_⟩
      rw [if_pos rfl, reads_bind]
      refine ⟨name, _, reads_readString.mpr hname, ?_⟩
      cases hmember with
      | field hfield hnew hvalue =>
        simpa +decide [hfield, hnew] using ⟨value, hcolon, next, more, hvalue, hmore⟩
      | other hfield hvalue =>
        simpa +decide [hfield, reads_skipValue] using ⟨value, hcolon, more, hvalue, hmore⟩

theorem spaces_nil_iff : Spaces text [] ↔ text.dropWhile isSpace = [] := by
  rw [dropWhile_eq_iff]
  exact (and_iff_left nofun).symm

end RiscvSemantics.Json
