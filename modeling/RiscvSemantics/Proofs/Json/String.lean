import RiscvSemantics.Json.String
import RiscvSemantics.Proofs.Json.Reading

namespace RiscvSemantics.Json

/-- The bytes of a text. -/
def octets (s : String) : List UInt8 :=
  s.toUTF8.data.toList

/-- Four digits in base 16 and the number that they stand for. -/
inductive Hex4 : List UInt8 → Nat → List UInt8 → Prop where
  | intro {a b c d : UInt8} {a' b' c' d' : Nat} {rest : List UInt8} (ha : hexDigit? a = some a')
      (hb : hexDigit? b = some b') (hc : hexDigit? c = some c') (hd : hexDigit? d = some d') :
    Hex4 (a :: b :: c :: d :: rest) (((a' * 16 + b') * 16 + c') * 16 + d') rest

/-- The first half of a character beyond the basic plane. -/
def IsHigh (code : Nat) : Prop :=
  0xd800 ≤ code ∧ code ≤ 0xdbff

/-- The second half of a character beyond the basic plane. -/
def IsLow (code : Nat) : Prop :=
  0xdc00 ≤ code ∧ code ≤ 0xdfff

/-- The number of a character, in one part or in two. -/
inductive Numbered : List UInt8 → Char → List UInt8 → Prop where
  | whole {text rest : List UInt8} {code : Nat} (hcode : Hex4 text code rest) (hhigh : ¬ IsHigh code)
      (hlow : ¬ IsLow code) : Numbered text (Char.ofNat code) rest
  | halves {text middle rest : List UInt8} {high low : Nat}
      (hfirst : Hex4 text high ('\\'.toUInt8 :: 'u'.toUInt8 :: middle)) (hhigh : IsHigh high)
      (hsecond : Hex4 middle low rest) (hlow : IsLow low) :
    Numbered text (Char.ofNat ((high - 0xd800) * 0x400 + (low - 0xdc00) + 0x10000)) rest

/-- An escape behind its backslash and the bytes that it stands for, those of one character. -/
inductive Escape : List UInt8 → List UInt8 → List UInt8 → Prop where
  | letter {letter : UInt8} {c : Char} {rest : List UInt8} (hletter : simpleEscape? letter = some c) :
    Escape (letter :: rest) (octets (String.singleton c)) rest
  | number {text rest : List UInt8} {c : Char} (hc : Numbered text c rest) :
    Escape ('u'.toUInt8 :: text) (octets (String.singleton c)) rest

/-- An escape that is passed over. Its number need not be that of a character. -/
inductive Passing : List UInt8 → List UInt8 → List UInt8 → Prop where
  | letter {letter : UInt8} {rest : List UInt8} (hletter : (simpleEscape? letter).isSome) :
    Passing (letter :: rest) [] rest
  | number {text rest : List UInt8} {code : Nat} (hcode : Hex4 text code rest) :
    Passing ('u'.toUInt8 :: text) [] rest

/-- The content of a string, up to its closing quotation mark. -/
inductive Quoted (Escape : List UInt8 → List UInt8 → List UInt8 → Prop) :
    List UInt8 → List UInt8 → List UInt8 → Prop where
  | close {rest : List UInt8} : Quoted Escape ('\x22'.toUInt8 :: rest) [] rest
  | plain {b : UInt8} {text content rest : List UInt8} (hquote : b ≠ '\x22'.toUInt8) (hcontrol : ¬ b < 0x20)
      (hbackslash : b ≠ '\\'.toUInt8) (hmore : Quoted Escape text content rest) :
    Quoted Escape (b :: text) (b :: content) rest
  | escape {text bytes middle content rest : List UInt8} (hescape : Escape text bytes middle)
      (hmore : Quoted Escape middle content rest) :
    Quoted Escape ('\\'.toUInt8 :: text) (bytes ++ content) rest

section Octets

theorem octets_append (s t : String) : octets (s ++ t) = octets s ++ octets t := by
  simp [octets]

theorem octets_ofList {cs : List Char} (h : ∀ c ∈ cs, c.utf8Size = 1) :
    octets (String.ofList cs) = cs.map Char.toUInt8 := by
  induction cs with
  | nil => rfl
  | cons c cs ih =>
    have hc : String.utf8EncodeChar c = [c.toUInt8] := String.utf8EncodeChar_eq_singleton (h c List.mem_cons_self)
    have hmore := ih fun c hc => h c (List.mem_cons_of_mem _ hc)
    rw [octets, String.toUTF8, String.toByteArray_ofList] at hmore ⊢
    rw [List.utf8Encode_cons, List.utf8Encode_singleton, hc, List.map_cons, ← hmore]
    simp

end Octets

variable {α : Type} {text rest bytes content : List UInt8} {code high : Nat}

/-- A result that leaves the rest of a text. -/
def Leaves (x : Except Error (α × Rest text)) (a : α) (rest : List UInt8) : Prop :=
  ∃ h, x = .ok (a, ⟨rest, h⟩)

theorem Leaves.length_le {x : Except Error (α × Rest text)} {a : α} (h : Leaves x a rest) :
    rest.length ≤ text.length :=
  h.1

section Results

variable {β : Type} {inner : List UInt8} {a : α} {b : β}

@[simp] theorem leaves_ok {left : Rest text} {a' : α} :
    Leaves (.ok (a', left)) a rest ↔ a' = a ∧ left.val = rest := by
  constructor
  · rintro ⟨_, ⟨⟩⟩
    exact ⟨rfl, rfl⟩
  · rintro ⟨rfl, rfl⟩
    exact ⟨left.property, rfl⟩

@[simp] theorem leaves_error {e : Error} : ¬ Leaves (.error e : Except Error (α × Rest text)) a rest :=
  nofun

@[simp] theorem leaves_ite {condition : Prop} [Decidable condition] {x y : Except Error (α × Rest text)} :
    Leaves (if condition then x else y) a rest ↔ if condition then Leaves x a rest else Leaves y a rest := by
  split
  · rfl
  · rfl

@[simp] theorem leaves_bind {x : Except Error (α × Rest inner)}
    {f : α × Rest inner → Except Error (β × Rest text)} : Leaves (x >>= f) b rest ↔
      ∃ a middle, ∃ h : Leaves x a middle, Leaves (f (a, ⟨middle, h.length_le⟩)) b rest := by
  constructor
  · rintro ⟨hle, h⟩
    cases x with
    | error e => cases h
    | ok p => exact ⟨p.1, p.2.val, ⟨p.2.property, rfl⟩, hle, h⟩
  · rintro ⟨a, middle, ⟨_, rfl⟩, h⟩
    exact h

end Results

theorem Hex4.length_eq (h : Hex4 text code rest) : text.length = rest.length + 4 := by
  obtain ⟨-, -, -, -⟩ := h
  rfl

theorem leaves_readHex4 : Leaves (readHex4 text) code rest ↔ Hex4 text code rest := by
  constructor
  · rintro ⟨_, h⟩
    rw [readHex4.eq_def] at h
    split at h
    case h_1 a b c d others =>
      split at h
      case h_1 a' b' c' d' ha hb hc hd =>
        cases h
        exact .intro ha hb hc hd
      case h_2 => cases h
    case h_2 => cases h
  · rintro ⟨ha, hb, hc, hd⟩
    refine ⟨Nat.le_add_right _ 4, ?_⟩
    rw [readHex4, ha, hb, hc, hd]

theorem leaves_readLowSurrogate {c : Char} : Leaves (readLowSurrogate high text) c rest ↔
    ∃ middle low, text = '\\'.toUInt8 :: 'u'.toUInt8 :: middle ∧ IsLow low ∧
      Char.ofNat ((high - 0xd800) * 0x400 + (low - 0xdc00) + 0x10000) = c ∧ Hex4 middle low rest := by
  match text with
  | [] => simp [readLowSurrogate]
  | [b] => simp [readLowSurrogate]
  | b :: b' :: digits => simp [readLowSurrogate, leaves_readHex4, IsLow, and_assoc]

theorem leaves_readUnicode {c : Char} : Leaves (readUnicode text) c rest ↔ Numbered text c rest := by
  have hreads : Leaves (readUnicode text) c rest ↔ ∃ code middle, Hex4 text code middle ∧
      if 0xd800 ≤ code ∧ code ≤ 0xdbff then Leaves (readLowSurrogate code middle) c rest
      else (0xdc00 ≤ code → 0xdfff < code) ∧ Char.ofNat code = c ∧ middle = rest := by
    simp [readUnicode, leaves_readHex4]
  rw [hreads]
  constructor
  · rintro ⟨code, middle, hcode, h⟩
    split at h
    case isTrue hhigh =>
      obtain ⟨more, low, rfl, hlow, rfl, hsecond⟩ := leaves_readLowSurrogate.mp h
      exact .halves hcode hhigh hsecond hlow
    case isFalse hhigh =>
      obtain ⟨hlow, rfl, rfl⟩ := h
      exact .whole hcode hhigh fun h => Nat.not_le_of_lt (hlow h.1) h.2
  · rintro (⟨hcode, hhigh, hlow⟩ | ⟨hfirst, hhigh, hsecond, hlow⟩)
    · refine ⟨_, _, hcode, (if_neg hhigh).mpr ⟨fun h => ?_, rfl, rfl⟩⟩
      exact Nat.lt_of_not_le fun h' => hlow ⟨h, h'⟩
    · refine ⟨_, _, hfirst, (if_pos hhigh).mpr ?_⟩
      exact leaves_readLowSurrogate.mpr ⟨_, _, rfl, hlow, rfl, hsecond⟩

theorem simpleEscape?_u : simpleEscape? 'u'.toUInt8 = none := by
  decide

theorem leaves_readEscape : Leaves (readEscape text) bytes rest ↔ Escape text bytes rest := by
  constructor
  · intro h
    cases text with
    | nil => exact absurd h leaves_error
    | cons letter others =>
      rw [readEscape] at h
      cases hletter : simpleEscape? letter with
      | some c =>
        rw [hletter] at h
        obtain ⟨rfl, rfl⟩ := leaves_ok.mp h
        exact .letter hletter
      | none =>
        obtain ⟨rfl, c, hc, rfl⟩ : letter = 'u'.toUInt8 ∧ ∃ c, Numbered others c rest ∧
            octets (String.singleton c) = bytes := by
          simpa [hletter, leaves_readUnicode, octets, and_comm] using h
        exact .number hc
  · rintro (hletter | hc)
    · rw [readEscape, hletter]
      exact leaves_ok.mpr ⟨rfl, rfl⟩
    · rw [readEscape, simpleEscape?_u]
      refine leaves_bind.mpr ⟨_, rest, leaves_readUnicode.mpr hc, ?_⟩
      exact leaves_ok.mpr ⟨rfl, rfl⟩

theorem leaves_skipEscape : Leaves (skipEscape text) bytes rest ↔ Passing text bytes rest := by
  constructor
  · intro h
    cases text with
    | nil => exact absurd h leaves_error
    | cons letter others =>
      rw [skipEscape] at h
      by_cases hletter : (simpleEscape? letter).isSome
      · rw [if_pos hletter] at h
        obtain ⟨rfl, rfl⟩ := leaves_ok.mp h
        exact .letter hletter
      · rw [if_neg hletter] at h
        obtain ⟨rfl, rfl, code, hcode⟩ : letter = 'u'.toUInt8 ∧ bytes = [] ∧ ∃ code, Hex4 others code rest := by
          simpa [leaves_readHex4] using h
        exact .number hcode
  · rintro (hletter | hcode)
    · rw [skipEscape, if_pos hletter]
      exact leaves_ok.mpr ⟨rfl, rfl⟩
    · rw [skipEscape, simpleEscape?_u]
      refine leaves_bind.mpr ⟨_, rest, leaves_readHex4.mpr hcode, ?_⟩
      exact leaves_ok.mpr ⟨rfl, rfl⟩

section Strings

variable {escape : (bytes : List UInt8) → Except Error (List UInt8 × Rest bytes)}
  {Escape : List UInt8 → List UInt8 → List UInt8 → Prop}
  (hescape : ∀ {text bytes rest}, Leaves (escape text) bytes rest ↔ Escape text bytes rest)
include hescape

theorem Quoted.length_lt (h : Quoted Escape text content rest) : rest.length < text.length := by
  induction h with
  | close => exact Nat.lt_succ_self _
  | plain _ _ _ _ ih => exact Nat.lt_succ_of_lt ih
  | escape he _ ih => exact Nat.lt_succ_of_lt (Nat.lt_of_lt_of_le ih (hescape.mpr he).length_le)

/-- What is read up to the closing mark is the content, for any escapes. -/
theorem readQuoted_eq_ok_iff :
    readQuoted escape text = .ok (content, rest) ↔ Quoted Escape text content rest := by
  constructor
  · intro h
    fun_induction readQuoted escape text generalizing content rest with
    | case1 => cases h
    | case2 b others hquote =>
      cases h
      rw [eq_of_beq hquote]
      exact .close
    | case3 => cases h
    | case4 b others hquote hcontrol hbackslash ih =>
      obtain ⟨⟨bytes, middle, hle⟩, hbytes, h⟩ := bind_eq_ok_iff.mp h
      obtain ⟨⟨content, left⟩, hmore, ⟨⟩⟩ := bind_eq_ok_iff.mp h
      rw [eq_of_beq hbackslash]
      exact .escape (hescape.mp ⟨hle, hbytes⟩) (ih middle hle hmore)
    | case5 b others hquote hcontrol hbackslash ih =>
      obtain ⟨⟨content, left⟩, hmore, ⟨⟩⟩ := bind_eq_ok_iff.mp h
      exact .plain (mt beq_iff_eq.mpr hquote) hcontrol (mt beq_iff_eq.mpr hbackslash) (ih hmore)
  · intro h
    induction h with
    | close =>
      rw [readQuoted]
      rfl
    | plain hquote hcontrol hbackslash _ ih =>
      rw [readQuoted, if_neg (mt eq_of_beq hquote), if_neg hcontrol, if_neg (mt eq_of_beq hbackslash)]
      exact bind_eq_ok_iff.mpr ⟨_, ih, rfl⟩
    | escape he _ ih =>
      obtain ⟨hle, hbytes⟩ := hescape.mpr he
      rw [readQuoted, if_neg (by decide), if_neg (by decide), if_pos (by decide)]
      exact bind_eq_ok_iff.mpr ⟨_, hbytes, bind_eq_ok_iff.mpr ⟨_, ih, rfl⟩⟩

end Strings

theorem fromUTF8?_eq_some_iff {name : String} :
    String.fromUTF8? ⟨content.toArray⟩ = some name ↔ content = octets name := by
  rw [String.fromUTF8?]
  constructor
  · intro h
    split at h
    case isTrue hvalid =>
      cases h
      rfl
    case isFalse => cases h
  · rintro rfl
    exact dif_pos name.isValidUTF8

/-- The name that a string stands for is the one with the bytes of its content. -/
theorem reads_readString {name : String} :
    Reads readString text name rest ↔ Quoted Escape text (octets name) rest := by
  simp only [readString, reads_bind, reads_get, reads_lift, reads_set, readQuoted_eq_ok_iff leaves_readEscape]
  constructor
  · rintro ⟨_, _, ⟨rfl, rfl⟩, ⟨content, left⟩, _, ⟨hcontent, rfl⟩, _, _, rfl, h⟩
    cases hname : String.fromUTF8? ⟨content.toArray⟩ with
    | none =>
      rw [hname] at h
      exact absurd h reads_throw
    | some s =>
      rw [hname] at h
      obtain ⟨rfl, rfl⟩ := reads_pure.mp h
      rwa [fromUTF8?_eq_some_iff.mp hname] at hcontent
  · intro hcontent
    refine ⟨text, text, ⟨rfl, rfl⟩, ⟨octets name, rest⟩, text, ⟨hcontent, rfl⟩, (), rest, rfl, ?_⟩
    rw [fromUTF8?_eq_some_iff.mpr rfl]
    exact reads_pure.mpr ⟨rfl, rfl⟩

/-- A name without escapes is its own content. -/
theorem quoted_of_plain {Escape : List UInt8 → List UInt8 → List UInt8 → Prop}
    (hcontent : ∀ b ∈ content, b ≠ '\x22'.toUInt8 ∧ ¬ b < 0x20 ∧ b ≠ '\\'.toUInt8) :
    Quoted Escape (content ++ '\x22'.toUInt8 :: rest) content rest := by
  induction content with
  | nil => exact .close
  | cons b others ih =>
    obtain ⟨hquote, hcontrol, hbackslash⟩ := hcontent b List.mem_cons_self
    exact .plain hquote hcontrol hbackslash (ih fun b hb => hcontent b (List.mem_cons_of_mem _ hb))

theorem reads_skipString {u : Unit} :
    Reads skipString text u rest ↔ ∃ content, Quoted Passing text content rest := by
  simp [skipString, readQuoted_eq_ok_iff leaves_skipEscape]

end RiscvSemantics.Json
