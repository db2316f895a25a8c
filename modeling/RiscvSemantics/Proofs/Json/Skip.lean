import RiscvSemantics.Json.Skip
import RiscvSemantics.Proofs.Json.Number
import RiscvSemantics.Proofs.Json.String

namespace RiscvSemantics.Json

/-- What stands in front of an element or a member: white space, with a comma in it except before the first. -/
def Separated : (isFirst : Bool) → List UInt8 → List UInt8 → Prop
  | true, text, token => Spaces text token
  | false, text, token => ∃ next, Spaces text (','.toUInt8 :: next) ∧ Spaces next token

/-- What is passed over in one go: a value, or what is left of a sequence or a map. -/
inductive Part where
  | value
  | elements (isFirst : Bool)
  | members (isFirst : Bool)

/-- The values of the format. No white space stands in front of a value. -/
inductive Passed : Part → List UInt8 → List UInt8 → Prop where
  | word {word : String} {rest : List UInt8} (hword : word ∈ ["null", "true", "false"]) :
    Passed .value (word.toList.map Char.toUInt8 ++ rest) rest
  | negative {number rest : List UInt8} (hnumber : Numeral number rest) : Passed .value ('-'.toUInt8 :: number) rest
  | number {number rest : List UInt8} (hnumber : Numeral number rest) : Passed .value number rest
  | string {text content rest : List UInt8} (hcontent : Quoted Passing text content rest) :
    Passed .value ('\x22'.toUInt8 :: text) rest
  | sequence {text rest : List UInt8} (helements : Passed (.elements true) text rest) :
    Passed .value ('['.toUInt8 :: text) rest
  | map {text rest : List UInt8} (hmembers : Passed (.members true) text rest) :
    Passed .value ('{'.toUInt8 :: text) rest
  | elementsEnd {isFirst : Bool} {text rest : List UInt8} (hclose : Spaces text (']'.toUInt8 :: rest)) :
    Passed (.elements isFirst) text rest
  | element {isFirst : Bool} {text value more rest : List UInt8} (hfront : Separated isFirst text value)
      (hvalue : Passed .value value more) (hmore : Passed (.elements false) more rest) :
    Passed (.elements isFirst) text rest
  | membersEnd {isFirst : Bool} {text rest : List UInt8} (hclose : Spaces text ('}'.toUInt8 :: rest)) :
    Passed (.members isFirst) text rest
  | member {isFirst : Bool} {text name content behind next value more rest : List UInt8}
      (hfront : Separated isFirst text ('\x22'.toUInt8 :: name)) (hname : Quoted Passing name content behind)
      (hcolon : Spaces behind (':'.toUInt8 :: next)) (hspaces : Spaces next value)
      (hvalue : Passed .value value more) (hmore : Passed (.members false) more rest) :
    Passed (.members isFirst) text rest

variable {text rest : List UInt8} {limit : Nat} {isFirst : Bool}

/-- How much of its limit a part spends before it takes something off the text. -/
def Part.cost : Part → Nat
  | .value => 0
  | .elements _ | .members _ => 1

def Part.skip : Part → (limit : Nat) → Reader Unit
  | .value, limit => skipUpTo limit
  | .elements isFirst, limit => skipElements limit isFirst
  | .members isFirst, limit => skipMembers limit isFirst

/-- A part, where white space may stand in front of a value too. -/
def Skipped : Part → List UInt8 → List UInt8 → Prop
  | .value, text, rest => ∃ token, Spaces text token ∧ Passed .value token rest
  | .elements isFirst, text, rest => Passed (.elements isFirst) text rest
  | .members isFirst, text, rest => Passed (.members isFirst) text rest

theorem reads_skipKey {u : Unit} : Reads skipKey text u rest ↔ ∃ name, Spaces text ('\x22'.toUInt8 :: name) ∧
    ∃ behind, (∃ content, Quoted Passing name content behind) ∧ Spaces behind (':'.toUInt8 :: rest) := by
  simp +decide [skipKey, reads_skipString]

/-- What stands in front of a value is passed over with it. -/
theorem reads_skipUpTo_of_spaces {token : List UInt8} {u : Unit} (hspaces : Spaces text token)
    (h : Reads (skipUpTo limit) token u rest) : Reads (skipUpTo limit) text u rest := by
  cases limit with
  | zero => exact absurd h reads_throw
  | succ limit =>
    rw [skipUpTo, reads_requireToken_bind] at h ⊢
    obtain ⟨b, behind, hmore, hnext⟩ := h
    exact ⟨b, behind, hspaces.trans hmore, hnext⟩

section Sound

variable (ih : ∀ part {text rest}, Reads (Part.skip part limit) text () rest → Skipped part text rest)
include ih

theorem skipped_value (h : Reads (skipUpTo (limit + 1)) text () rest) : Skipped .value text rest := by
  rw [skipUpTo, reads_requireToken_bind] at h
  obtain ⟨b, behind, hspaces, -, h⟩ := h
  refine ⟨b :: behind, hspaces, ?_⟩
  split at h
  case isTrue => exact reads_expect.mp h ▸ .word (by decide)
  split at h
  case isTrue => exact reads_expect.mp h ▸ .word (by decide)
  split at h
  case isTrue => exact reads_expect.mp h ▸ .word (by decide)
  split at h
  case isTrue hb =>
    rw [eq_of_beq hb]
    exact .negative (reads_skipNumber.mp (reads_advance_bind.mp h))
  split at h
  case isTrue => exact .number (reads_skipNumber.mp h)
  split at h
  case isTrue hb =>
    obtain ⟨content, hcontent⟩ := reads_skipString.mp (reads_advance_bind.mp h)
    rw [eq_of_beq hb]
    exact .string hcontent
  split at h
  case isTrue hb =>
    rw [eq_of_beq hb]
    exact .sequence (ih (.elements true) (reads_advance_bind.mp h))
  split at h
  case isTrue hb =>
    rw [eq_of_beq hb]
    exact .map (ih (.members true) (reads_advance_bind.mp h))
  case isFalse => exact absurd h reads_throw

theorem skipped_elements (h : Reads (skipElements (limit + 1) isFirst) text () rest) :
    Skipped (.elements isFirst) text rest := by
  rw [skipElements, reads_requireToken_bind] at h
  obtain ⟨b, behind, hspaces, -, h⟩ := h
  split at h
  case isTrue hb =>
    obtain rfl := reads_advance.mp h
    exact .elementsEnd (eq_of_beq hb ▸ hspaces)
  cases isFirst with
  | true =>
    obtain ⟨more, hvalue, hmore⟩ : ∃ more, Reads (skipUpTo limit) (b :: behind) () more ∧
        Reads (skipElements limit false) more () rest := by simpa using h
    obtain ⟨value, hfront, hvalue⟩ := ih .value hvalue
    exact .element (hspaces.trans hfront) hvalue (ih (.elements false) hmore)
  | false =>
    obtain ⟨rfl, more, hvalue, hmore⟩ : b = ','.toUInt8 ∧ ∃ more, Reads (skipUpTo limit) behind () more ∧
        Reads (skipElements limit false) more () rest := by simpa using h
    obtain ⟨value, hfront, hvalue⟩ := ih .value hvalue
    exact .element ⟨_, hspaces, hfront⟩ hvalue (ih (.elements false) hmore)

theorem skipped_members (h : Reads (skipMembers (limit + 1) isFirst) text () rest) :
    Skipped (.members isFirst) text rest := by
  rw [skipMembers, reads_requireToken_bind] at h
  obtain ⟨b, behind, hspaces, -, h⟩ := h
  split at h
  case isTrue hb =>
    obtain rfl := reads_advance.mp h
    exact .membersEnd (eq_of_beq hb ▸ hspaces)
  cases isFirst with
  | true =>
    obtain ⟨next, hkey, more, hvalue, hmore⟩ : ∃ next, Reads skipKey (b :: behind) () next ∧ ∃ more,
        Reads (skipUpTo limit) next () more ∧ Reads (skipMembers limit false) more () rest := by simpa using h
    obtain ⟨name, hquote, _, ⟨_, hname⟩, hcolon⟩ := reads_skipKey.mp hkey
    obtain ⟨value, hfront, hvalue⟩ := ih .value hvalue
    exact .member (hspaces.trans hquote) hname hcolon hfront hvalue (ih (.members false) hmore)
  | false =>
    obtain ⟨rfl, next, hkey, more, hvalue, hmore⟩ : b = ','.toUInt8 ∧ ∃ next, Reads skipKey behind () next ∧
        ∃ more, Reads (skipUpTo limit) next () more ∧ Reads (skipMembers limit false) more () rest := by
      simpa using h
    obtain ⟨name, hquote, _, ⟨_, hname⟩, hcolon⟩ := reads_skipKey.mp hkey
    obtain ⟨value, hfront, hvalue⟩ := ih .value hvalue
    exact .member ⟨_, hspaces, hquote⟩ hname hcolon hfront hvalue (ih (.members false) hmore)

end Sound

/-- The limit counts down with each part that is begun. -/
theorem skipped_of_reads (part : Part) (h : Reads (part.skip limit) text () rest) : Skipped part text rest := by
  induction limit generalizing part text rest with
  | zero => cases part <;> exact absurd h reads_throw
  | succ limit ih =>
    cases part with
    | value => exact skipped_value (fun part _ _ => ih part) h
    | elements isFirst => exact skipped_elements (fun part _ _ => ih part) h
    | members isFirst => exact skipped_members (fun part _ _ => ih part) h

section Complete

variable {part : Part} {token : List UInt8}

theorem Separated.length_le (h : Separated isFirst text token) : token.length ≤ text.length := by
  cases isFirst with
  | true => exact h.length_le
  | false =>
    obtain ⟨next, hcomma, hspaces⟩ := h
    have hnext := hcomma.length_le
    rw [List.length_cons] at hnext
    exact Nat.le_trans hspaces.length_le (by omega)

/-- Every part takes something off the text. -/
theorem Passed.length_lt (h : Passed part text rest) : rest.length < text.length := by
  induction h with
  | word hword =>
    rw [List.length_append, List.length_map]
    have hlength : ∀ word ∈ ["null", "true", "false"], 0 < word.toList.length := by decide
    exact Nat.lt_add_of_pos_left (hlength _ hword)
  | negative hnumber => exact Nat.lt_succ_of_lt hnumber.length_lt
  | number hnumber => exact hnumber.length_lt
  | string hcontent => exact Nat.lt_succ_of_lt (hcontent.length_lt leaves_skipEscape)
  | sequence _ ih => exact Nat.lt_succ_of_lt ih
  | map _ ih => exact Nat.lt_succ_of_lt ih
  | elementsEnd hclose => exact hclose.length_le
  | element hfront _ _ hvalue hmore => exact Nat.lt_of_lt_of_le (hmore.trans hvalue) hfront.length_le
  | membersEnd hclose => exact hclose.length_le
  | member hfront hname hcolon hspaces _ _ hvalue hmore =>
    have hquote := hfront.length_le
    have hbehind := hname.length_lt leaves_skipEscape
    have hnext := hcolon.length_le
    have hstart := hspaces.length_le
    rw [List.length_cons] at hquote hnext
    omega

theorem isSpace_of_isDigit {b : UInt8} (hb : isDigit b) : isSpace b = false := by
  rw [Bool.eq_false_iff]
  intro hspace
  have hfour : b = 0x20 ∨ b = 0x0a ∨ b = 0x09 ∨ b = 0x0d := by simpa [isSpace, or_assoc] using hspace
  obtain rfl | rfl | rfl | rfl := hfour
  all_goals cases hb

/-- No value starts with white space or with the end of a sequence. -/
theorem Passed.exists_head (h : Passed .value token rest) :
    ∃ b behind, token = b :: behind ∧ isSpace b = false ∧ b ≠ ']'.toUInt8 := by
  cases h with
  | word hword =>
    simp only [List.mem_cons, List.not_mem_nil, or_false] at hword
    obtain rfl | rfl | rfl := hword
    all_goals exact ⟨_, _, rfl, by decide⟩
  | negative => exact ⟨_, _, rfl, by decide⟩
  | number hnumber =>
    obtain ⟨b, behind, rfl, hb⟩ := hnumber.exists_digit
    refine ⟨b, behind, rfl, isSpace_of_isDigit hb, ?_⟩
    rintro rfl
    cases hb
  | string => exact ⟨_, _, rfl, by decide⟩
  | sequence => exact ⟨_, _, rfl, by decide⟩
  | map => exact ⟨_, _, rfl, by decide⟩

theorem reads_skipUpTo_word {word : String} (hword : word ∈ ["null", "true", "false"]) :
    Reads (skipUpTo (limit + 1)) (word.toList.map Char.toUInt8 ++ rest) () rest := by
  simp only [List.mem_cons, List.not_mem_nil, or_false] at hword
  rw [skipUpTo, reads_requireToken_bind]
  obtain rfl | rfl | rfl := hword
  · refine ⟨_, _, .refl _, by decide, ?_⟩
    simp +decide
  · refine ⟨_, _, .refl _, by decide, ?_⟩
    simp +decide
  · refine ⟨_, _, .refl _, by decide, ?_⟩
    simp +decide

theorem reads_skipUpTo_number (hnumber : Numeral text rest) : Reads (skipUpTo (limit + 1)) text () rest := by
  obtain ⟨b, behind, rfl, hb⟩ := hnumber.exists_digit
  have hmark (c : Char) (hc : isDigit c.toUInt8 = false) : ¬ (b == c.toUInt8) = true := by
    intro hbeq
    rw [eq_of_beq hbeq, hc] at hb
    cases hb
  rw [skipUpTo, reads_requireToken_bind]
  refine ⟨_, _, .refl _, isSpace_of_isDigit hb, ?_⟩
  rw [if_neg (hmark 'n' (by decide)), if_neg (hmark 't' (by decide)), if_neg (hmark 'f' (by decide)),
    if_neg (hmark '-' (by decide)), if_pos hb]
  exact reads_skipNumber.mpr hnumber

theorem reads_skipElements_element {value more : List UInt8} (hfront : Separated isFirst text value)
    (hvalue : Passed .value value more) (hreads : Reads (skipUpTo limit) value () more)
    (hmore : Reads (skipElements limit false) more () rest) :
    Reads (skipElements (limit + 1) isFirst) text () rest := by
  rw [skipElements, reads_requireToken_bind]
  cases isFirst with
  | true =>
    obtain ⟨b, behind, rfl, hb, hend⟩ := hvalue.exists_head
    refine ⟨b, behind, hfront, hb, ?_⟩
    simpa [hend] using ⟨more, hreads, hmore⟩
  | false =>
    obtain ⟨next, hcomma, hspaces⟩ := hfront
    refine ⟨_, _, hcomma, by decide, ?_⟩
    simpa +decide using ⟨more, reads_skipUpTo_of_spaces hspaces hreads, hmore⟩

theorem reads_skipMembers_member {name content behind next more : List UInt8}
    (hfront : Separated isFirst text ('\x22'.toUInt8 :: name)) (hname : Quoted Passing name content behind)
    (hcolon : Spaces behind (':'.toUInt8 :: next)) (hreads : Reads (skipUpTo limit) next () more)
    (hmore : Reads (skipMembers limit false) more () rest) :
    Reads (skipMembers (limit + 1) isFirst) text () rest := by
  have hkey {key : List UInt8} (hquote : Spaces key ('\x22'.toUInt8 :: name)) : Reads skipKey key () next :=
    reads_skipKey.mpr ⟨name, hquote, behind, ⟨content, hname⟩, hcolon⟩
  rw [skipMembers, reads_requireToken_bind]
  cases isFirst with
  | true =>
    refine ⟨_, _, hfront, by decide, ?_⟩
    simpa +decide using ⟨next, hkey (.refl _), more, hreads, hmore⟩
  | false =>
    obtain ⟨key, hcomma, hquote⟩ := hfront
    refine ⟨_, _, hcomma, by decide, ?_⟩
    simpa +decide using ⟨next, hkey hquote, more, hreads, hmore⟩

/-- Two calls are made for each byte at most, so that the limit is not reached. -/
theorem Passed.reads (h : Passed part text rest) (hlimit : 2 * text.length + part.cost ≤ limit + 1) :
    Reads (part.skip (limit + 1)) text () rest := by
  induction h generalizing limit with
  | word hword => exact reads_skipUpTo_word hword
  | negative hnumber =>
    rw [Part.skip, skipUpTo, reads_requireToken_bind]
    refine ⟨_, _, .refl _, by decide, ?_⟩
    simpa +decide using reads_skipNumber.mpr hnumber
  | number hnumber => exact reads_skipUpTo_number hnumber
  | string hcontent =>
    rw [Part.skip, skipUpTo, reads_requireToken_bind]
    refine ⟨_, _, .refl _, by decide, ?_⟩
    simpa +decide using reads_skipString.mpr ⟨_, hcontent⟩
  | sequence helements ih =>
    have hshorter := helements.length_lt
    rw [List.length_cons, Part.cost] at hlimit
    obtain ⟨limit, rfl⟩ : ∃ k, limit = k + 1 := Nat.exists_eq_succ_of_ne_zero (by omega)
    have hreads : Reads (skipElements (limit + 1) true) _ () _ := ih (by rw [Part.cost]; omega)
    rw [Part.skip, skipUpTo, reads_requireToken_bind]
    refine ⟨_, _, .refl _, by decide, ?_⟩
    simpa +decide using hreads
  | map hmembers ih =>
    have hshorter := hmembers.length_lt
    rw [List.length_cons, Part.cost] at hlimit
    obtain ⟨limit, rfl⟩ : ∃ k, limit = k + 1 := Nat.exists_eq_succ_of_ne_zero (by omega)
    have hreads : Reads (skipMembers (limit + 1) true) _ () _ := ih (by rw [Part.cost]; omega)
    rw [Part.skip, skipUpTo, reads_requireToken_bind]
    refine ⟨_, _, .refl _, by decide, ?_⟩
    simpa +decide using hreads
  | elementsEnd hclose =>
    rw [Part.skip, skipElements, reads_requireToken_bind]
    refine ⟨_, _, hclose, by decide, ?_⟩
    simp
  | element hfront hvalue _ ihvalue ihmore =>
    have hlength := hfront.length_le
    have hshorter := hvalue.length_lt
    rw [Part.cost] at hlimit
    obtain ⟨limit, rfl⟩ : ∃ k, limit = k + 1 := Nat.exists_eq_succ_of_ne_zero (by omega)
    exact reads_skipElements_element hfront hvalue (ihvalue (by rw [Part.cost]; omega))
      (ihmore (by rw [Part.cost]; omega))
  | membersEnd hclose =>
    rw [Part.skip, skipMembers, reads_requireToken_bind]
    refine ⟨_, _, hclose, by decide, ?_⟩
    simp
  | member hfront hname hcolon hspaces hvalue _ ihvalue ihmore =>
    have hlength := hfront.length_le
    have hbehind := hname.length_lt leaves_skipEscape
    have hnext := hcolon.length_le
    have hstart := hspaces.length_le
    have hshorter := hvalue.length_lt
    rw [List.length_cons] at hlength hnext
    rw [Part.cost] at hlimit
    obtain ⟨limit, rfl⟩ : ∃ k, limit = k + 1 := Nat.exists_eq_succ_of_ne_zero (by omega)
    exact reads_skipMembers_member hfront hname hcolon
      (reads_skipUpTo_of_spaces hspaces (ihvalue (by rw [Part.cost]; omega))) (ihmore (by rw [Part.cost]; omega))

end Complete

theorem Skipped.length_le (h : Skipped .value text rest) : rest.length ≤ text.length := by
  obtain ⟨token, hspaces, hvalue⟩ := h
  exact Nat.le_trans (Nat.le_of_lt hvalue.length_lt) hspaces.length_le

/-- A value of any kind is passed over, however deep it is, and nothing else is. -/
theorem reads_skipValue {u : Unit} : Reads skipValue text u rest ↔ Skipped .value text rest := by
  have hreads : Reads skipValue text u rest ↔ Reads (skipUpTo (2 * text.length + 1)) text u rest := by
    simp [skipValue]
  rw [hreads]
  constructor
  · intro h
    have hpart : Reads (Part.value.skip (2 * text.length + 1)) text () rest := h
    exact skipped_of_reads .value hpart
  · rintro ⟨token, hspaces, hvalue⟩
    have hlength := hspaces.length_le
    exact reads_skipUpTo_of_spaces hspaces (hvalue.reads (by rw [Part.cost]; omega))

end RiscvSemantics.Json
