import Mathlib.Data.List.TakeWhile
import RiscvSemantics.Proofs.Image.Words

namespace RiscvSemantics

namespace Text

/-- A star is no digit of any base, and no sign. -/
theorem star_notMem_of_readDigits {base limit acc n : Nat} {cs : List Char}
    (hread : readDigits base limit acc cs = .ok n) : '*' ∉ cs := by
  induction cs generalizing acc with
  | nil => exact List.not_mem_nil
  | cons c rest ih =>
    rw [readDigits] at hread
    have hstar : digitValue? base '*' = none := rfl
    cases hdigit : digitValue? base c with
    | none =>
      rw [hdigit] at hread
      cases hread
    | some d =>
      rw [hdigit] at hread
      dsimp only at hread
      split at hread
      case isFalse => cases hread
      case isTrue =>
        intro hmem
        obtain rfl | hrest := List.mem_cons.mp hmem
        · rw [hstar] at hdigit
          cases hdigit
        · exact ih hread hrest

theorem star_notMem_of_readNumeral {base limit n : Nat} {cs : List Char}
    (hread : readNumeral base limit cs = .ok n) : '*' ∉ cs := by
  rw [readNumeral.eq_def] at hread
  split at hread
  · cases hread
  · cases hread
  · intro hmem
    obtain hsign | hrest := List.mem_cons.mp hmem
    · cases hsign
    · exact star_notMem_of_readDigits hread hrest
  · exact star_notMem_of_readDigits hread

end Text

namespace Image

variable {ε : Type} {line : List UInt8} {text count word : List Char} {number n : Nat}

/-- The bytes of a line are a text in UTF-8. -/
def HasText (line : List UInt8) (text : List Char) : Prop :=
  ByteArray.mk line.toArray = text.utf8Encode

/-- The words that a line behind the header stands for. White space around a line does not matter. -/
inductive LineWords (line : List UInt8) : List (BitVec 32) → Prop where
  | blank {text : List Char} (htext : HasText line text) (htrim : Text.trim text = []) : LineWords line []
  | word {text : List Char} {w : BitVec 32} (htext : HasText line text)
      (hword : readWord (Text.trim text) = .ok w) : LineWords line [w]
  | copies {text count word : List Char} {n : Nat} {w : BitVec 32} (htext : HasText line text)
      (htrim : Text.trim text = count ++ '*' :: word)
      (hcount : Text.readNumeral 10 UInt64.size count = .ok n) (hword : readWord word = .ok w) :
      LineWords line (List.replicate n w)

/-- What is wrong with a line behind the header that stands for no words. Of a count and a word that
    are both wrong, it is the count. -/
inductive LineError (number : Nat) (line : List UInt8) : Error ε → Prop where
  | notText (htext : ∀ text, ¬ HasText line text) : LineError number line .notText
  | word {text : List Char} {reason : Text.NumeralError} (htext : HasText line text)
      (htrim : Text.trim text ≠ []) (hstar : '*' ∉ Text.trim text)
      (hword : readWord (Text.trim text) = .error reason) : LineError number line (.badWord number reason)
  | count {text count word : List Char} {reason : Text.NumeralError} (htext : HasText line text)
      (htrim : Text.trim text = count ++ '*' :: word) (hstar : '*' ∉ count)
      (hcount : Text.readNumeral 10 UInt64.size count = .error reason) :
      LineError number line (.badCount number reason)
  | copied {text count word : List Char} {n : Nat} {reason : Text.NumeralError} (htext : HasText line text)
      (htrim : Text.trim text = count ++ '*' :: word)
      (hcount : Text.readNumeral 10 UInt64.size count = .ok n) (hword : readWord word = .error reason) :
      LineError number line (.badWord number reason)

/-- The words that lines stand for, those of the first line first. -/
inductive Expands : List (List UInt8) → List (BitVec 32) → Prop where
  | nil : Expands [] []
  | cons {line : List UInt8} {rest : List (List UInt8)} {ws more : List (BitVec 32)}
      (hline : LineWords line ws) (hrest : Expands rest more) : Expands (line :: rest) (ws ++ more)

/-- The line that an image starts with, with or without white space around it. -/
def IsHeader (line : List UInt8) : Prop :=
  ∃ text, HasText line text ∧ Text.trim text = header

/-- A file that is an image of words. -/
inductive IsImage (file : ByteArray) (ws : List (BitVec 32)) : Prop where
  | intro {first : List UInt8} {rest : List (List UInt8)} (hlines : lines file.data.toList = first :: rest)
      (hheader : IsHeader first) (hwords : Expands rest ws)

/-- What is wrong with a file that does not start with the header. -/
inductive HeaderError (file : ByteArray) : Error ε → Prop where
  | noLines (hempty : file.size = 0) : HeaderError file .noLines
  | notText {first : List UInt8} {rest : List (List UInt8)} (hlines : lines file.data.toList = first :: rest)
      (htext : ∀ text, ¬ HasText first text) : HeaderError file .notText
  | badHeader {first : List UInt8} {rest : List (List UInt8)} {text : List Char}
      (hlines : lines file.data.toList = first :: rest) (htext : HasText first text)
      (htrim : Text.trim text ≠ header) : HeaderError file .badHeader

/-- What is wrong with the first line behind the header that something is wrong with, and the lines in
    front of it, of which the header is none. -/
inductive FirstBad (file : ByteArray) : List (List UInt8) → Error ε → Prop where
  | intro {first bad : List UInt8} {good rest : List (List UInt8)} {e : Error ε}
      (hlines : lines file.data.toList = first :: (good ++ bad :: rest)) (hheader : IsHeader first)
      (hgood : ∀ line ∈ good, ∀ number, ∀ e : Error ε, ¬ LineError number line e)
      (hbad : LineError (good.length + 2) bad e) : FirstBad file good e

/-- A file that has, for one line with a count and a word in another, so many lines with the word. -/
inductive Unrolled (file other : ByteArray) : Prop where
  | intro {first line single : List UInt8} {early late : List (List UInt8)} {text text' count word : List Char}
      {n : Nat} {w : BitVec 32} (hfile : lines file.data.toList = first :: (early ++ line :: late))
      (hother : lines other.data.toList = first :: (early ++ (List.replicate n single ++ late)))
      (htext : HasText line text) (htrim : Text.trim text = count ++ '*' :: word)
      (hcount : Text.readNumeral 10 UInt64.size count = .ok n) (hword : readWord word = .ok w)
      (hsingle : HasText single text') (htrim' : Text.trim text' = word)

theorem lines_eq_nil_iff {file : ByteArray} : lines file.data.toList = [] ↔ file.size = 0 := by
  have hsize : file.size = file.data.toList.length := rfl
  rw [hsize]
  cases file.data.toList with
  | nil => exact iff_of_true rfl rfl
  | cons byte rest =>
    refine iff_of_false ?_ (Nat.succ_ne_zero _)
    rw [lines]
    split
    case isTrue => exact List.cons_ne_nil _ _
    case isFalse => split <;> exact List.cons_ne_nil _ _

section Decoding

theorem hasText_toUTF8 (s : String) : HasText s.toUTF8.data.toList s.toList :=
  String.utf8Encode_toList.symm

theorem HasText.fromUTF8? (htext : HasText line text) :
    String.fromUTF8? ⟨line.toArray⟩ = some (String.ofList text) := by
  have hvalid : (ByteArray.mk line.toArray).IsValidUTF8 := .intro text htext
  rw [String.fromUTF8?, dif_pos hvalid]
  exact congrArg some (String.toByteArray_inj.mp (htext.trans String.toByteArray_ofList.symm))

theorem isHeader_header : IsHeader "v2.0 raw".toUTF8.data.toList :=
  ⟨header, hasText_toUTF8 "v2.0 raw", by decide⟩

theorem decodeLine_of_hasText (htext : HasText line text) :
    (decodeLine line : Except (Error ε) _) = .ok text := by
  rw [decodeLine, htext.fromUTF8?]
  exact congrArg Except.ok String.toList_ofList

theorem decodeLine_of_not_hasText (htext : ∀ text, ¬ HasText line text) :
    (decodeLine line : Except (Error ε) _) = .error .notText := by
  have hinvalid : ¬ (ByteArray.mk line.toArray).IsValidUTF8 := by
    rintro ⟨text, hbytes⟩
    exact htext text hbytes
  rw [decodeLine, String.fromUTF8?, dif_neg hinvalid]

end Decoding

section Parsing

theorem parseLine_blank (htrim : Text.trim text = []) :
    (parseLine number text : Except (Error ε) _) = .ok none := by
  rw [parseLine, htrim]

theorem parseLine_plain (htrim : Text.trim text ≠ []) (hstar : '*' ∉ Text.trim text) :
    (parseLine number text : Except (Error ε) _) =
      ((readWord (Text.trim text)).mapError (.badWord number)).map fun w => some ⟨1, w⟩ := by
  have hnone : (Text.trim text).dropWhile (· != '*') = [] := by
    rw [List.dropWhile_eq_nil_iff]
    intro c hmem
    exact bne_iff_ne.mpr fun hc => hstar (hc ▸ hmem)
  rw [parseLine]
  generalize Text.trim text = content at htrim hnone
  cases content with
  | nil => exact absurd rfl htrim
  | cons c rest =>
    dsimp only
    rw [hnone]
    cases readWord (c :: rest) <;> rfl

/-- The first star separates. -/
theorem parseLine_starred (htrim : Text.trim text = count ++ '*' :: word) (hstar : '*' ∉ count) :
    (parseLine number text : Except (Error ε) _) =
      ((Text.readNumeral 10 UInt64.size count).mapError (.badCount number)).bind fun n =>
        ((readWord word).mapError (.badWord number)).map fun w => some ⟨n, w⟩ := by
  have hbefore : ∀ c ∈ count, (c != '*') = true := fun c hmem => bne_iff_ne.mpr fun hc => hstar (hc ▸ hmem)
  have hafter : (count ++ '*' :: word).dropWhile (· != '*') = '*' :: word := by
    rw [List.dropWhile_append_of_pos hbefore]
    rfl
  have hcount : (count ++ '*' :: word).takeWhile (· != '*') = count := by
    rw [List.takeWhile_append_of_pos hbefore]
    exact List.append_nil count
  rw [parseLine, htrim]
  generalize count ++ '*' :: word = content at hafter hcount
  cases content with
  | nil => cases hafter
  | cons c rest =>
    dsimp only
    rw [hafter, hcount]
    dsimp only
    cases Text.readNumeral 10 UInt64.size count with
    | error reason => rfl
    | ok n => cases readWord word <;> rfl

end Parsing

/-- A line that stands for words is read as they are. -/
theorem LineWords.exists_parseLine {ws : List (BitVec 32)} (h : LineWords line ws) (number : Nat) :
    ∃ text copies?, (decodeLine line : Except (Error ε) _) = .ok text ∧
      (parseLine number text : Except (Error ε) _) = .ok copies? ∧
      ws = copies?.elim [] Repeat.words := by
  cases h with
  | blank htext htrim => exact ⟨_, none, decodeLine_of_hasText htext, parseLine_blank htrim, rfl⟩
  | @word text w htext hword =>
    have hnumeral : ∃ m, Text.readNumeral 16 UInt32.size (Text.trim text) = .ok m := by
      cases hread : Text.readNumeral 16 UInt32.size (Text.trim text) with
      | ok m => exact ⟨m, rfl⟩
      | error reason =>
        rw [readWord, hread] at hword
        cases hword
    obtain ⟨m, hread⟩ := hnumeral
    have hne : Text.trim text ≠ [] := by
      intro hempty
      rw [hempty] at hread
      cases hread
    refine ⟨text, some ⟨1, w⟩, decodeLine_of_hasText htext, ?_, rfl⟩
    rw [parseLine_plain hne (Text.star_notMem_of_readNumeral hread), hword]
    rfl
  | @copies text count word n w htext htrim hcount hword =>
    refine ⟨text, some ⟨n, w⟩, decodeLine_of_hasText htext, ?_, rfl⟩
    rw [parseLine_starred htrim (Text.star_notMem_of_readNumeral hcount), hcount, hword]
    rfl

/-- What is wrong with a line is what is reported. -/
theorem LineError.read_eq {e : Error ε} (h : LineError number line e) :
    (decodeLine line >>= parseLine number : Except (Error ε) _) = .error e := by
  cases h with
  | notText htext =>
    rw [decodeLine_of_not_hasText htext]
    rfl
  | word htext htrim hstar hword =>
    rw [decodeLine_of_hasText htext]
    change parseLine number _ = _
    rw [parseLine_plain htrim hstar, hword]
    rfl
  | count htext htrim hstar hcount =>
    rw [decodeLine_of_hasText htext]
    change parseLine number _ = _
    rw [parseLine_starred htrim hstar, hcount]
    rfl
  | copied htext htrim hcount hword =>
    rw [decodeLine_of_hasText htext]
    change parseLine number _ = _
    rw [parseLine_starred htrim (Text.star_notMem_of_readNumeral hcount), hcount, hword]
    rfl

/-- Every line stands for words, or something is wrong with it. -/
theorem lineWords_or_lineError (number : Nat) (line : List UInt8) :
    (∃ ws, LineWords line ws) ∨ ∃ e : Error ε, LineError number line e := by
  by_cases htext : ∃ text, HasText line text
  · obtain ⟨text, htext⟩ := htext
    by_cases hblank : Text.trim text = []
    · exact .inl ⟨_, .blank htext hblank⟩
    by_cases hstar : '*' ∈ Text.trim text
    · obtain ⟨count, word, htrim, hfirst⟩ := List.eq_append_cons_of_mem hstar
      cases hcount : Text.readNumeral 10 UInt64.size count with
      | error reason => exact .inr ⟨_, .count htext htrim hfirst hcount⟩
      | ok n =>
        cases hword : readWord word with
        | error reason => exact .inr ⟨_, .copied htext htrim hcount hword⟩
        | ok w => exact .inl ⟨_, .copies htext htrim hcount hword⟩
    · cases hword : readWord (Text.trim text) with
      | error reason => exact .inr ⟨_, .word htext hblank hstar hword⟩
      | ok w => exact .inl ⟨_, .word htext hword⟩
  · exact .inr ⟨_, .notText fun text h => htext ⟨text, h⟩⟩

/-- It does not do both. -/
theorem LineWords.not_lineError {ws : List (BitVec 32)} (h : LineWords line ws) (e : Error ε) :
    ¬ LineError number line e := by
  intro he
  obtain ⟨text, copies?, hdecode, hparse, -⟩ := h.exists_parseLine (ε := ε) number
  have hread := he.read_eq
  rw [hdecode] at hread
  cases hparse.symm.trans hread

theorem LineWords.unique {ws other : List (BitVec 32)} (h : LineWords line ws) (hother : LineWords line other) :
    ws = other := by
  obtain ⟨text, copies?, hdecode, hparse, rfl⟩ := h.exists_parseLine (ε := Unit) 0
  obtain ⟨text', copies?', hdecode', hparse', rfl⟩ := hother.exists_parseLine (ε := Unit) 0
  rw [hdecode] at hdecode'
  cases hdecode'
  rw [hparse] at hparse'
  cases hparse'
  rfl

/-- What is said of a line that is text and holds no words names the line. -/
theorem LineError.messages_eq {e : Error ε} (h : LineError number line e) (causeName : ε → String) :
    e = .notText ∨ ∃ reason,
      (e = .badCount number reason ∧
          e.messages causeName = [s!"unable to parse count on line {number}", reason.message]) ∨
        (e = .badWord number reason ∧
          e.messages causeName = [s!"unable to parse value on line {number}", reason.message]) := by
  cases h with
  | notText htext => exact .inl rfl
  | @word text reason htext htrim hstar hword => exact .inr ⟨reason, .inr ⟨rfl, rfl⟩⟩
  | @count text count word reason htext htrim hstar hcount => exact .inr ⟨reason, .inl ⟨rfl, rfl⟩⟩
  | @copied text count word n reason htext htrim hcount hword => exact .inr ⟨reason, .inr ⟨rfl, rfl⟩⟩

namespace Expands

variable {early late : List (List UInt8)} {ws more : List (BitVec 32)}

theorem append (hearly : Expands early ws) (hlate : Expands late more) :
    Expands (early ++ late) (ws ++ more) := by
  induction hearly with
  | nil => exact hlate
  | cons hline hrest ih =>
    rw [List.append_assoc]
    exact .cons hline ih

/-- Lines stand for one list of words only. -/
theorem unique (h : Expands early ws) (hother : Expands early more) : ws = more := by
  induction h generalizing more with
  | nil =>
    cases hother
    rfl
  | cons hline hrest ih =>
    cases hother with
    | cons hline' hrest' => rw [hline.unique hline', ih hrest']

/-- They are read as these words. -/
theorem wordsOf_eq (h : Expands early ws) (number : Nat) :
    (wordsOf number early : Except (Error ε) _) = .ok ws := by
  induction h generalizing number with
  | nil => rfl
  | cons hline hrest ih =>
    obtain ⟨text, copies?, htext, hparse, rfl⟩ := hline.exists_parseLine (ε := ε) number
    cases copies? with
    | none => exact (wordsOf_blank htext hparse).trans (ih (number + 1))
    | some copies => exact wordsOf_copies htext hparse (ih (number + 1))

theorem split (h : Expands (early ++ late) ws) :
    ∃ first second, ws = first ++ second ∧ Expands early first ∧ Expands late second := by
  induction early generalizing ws with
  | nil => exact ⟨[], ws, rfl, .nil, h⟩
  | cons line rest ih =>
    cases h with
    | cons hline hrest =>
      obtain ⟨first, second, rfl, hfirst, hsecond⟩ := ih hrest
      exact ⟨_, second, (List.append_assoc ..).symm, .cons hline hfirst, hsecond⟩

/-- So many lines with one word stand for so many copies of it. -/
theorem replicate {w : BitVec 32} (hline : LineWords line [w]) (n : Nat) :
    Expands (List.replicate n line) (List.replicate n w) := by
  induction n with
  | zero => exact .nil
  | succ n ih => exact .cons hline ih

end Expands

/-- Lines stand for words if nothing is wrong with any of them. -/
theorem exists_expands_iff {ls : List (List UInt8)} :
    (∃ ws, Expands ls ws) ↔ ∀ line ∈ ls, ∀ number, ∀ e : Error ε, ¬ LineError number line e := by
  constructor
  case mp =>
    rintro ⟨ws, hws⟩
    induction hws with
    | nil => exact fun line hmem => absurd hmem List.not_mem_nil
    | cons hline hrest ih => exact List.forall_mem_cons.mpr ⟨fun number => hline.not_lineError, ih⟩
  case mpr =>
    intro h
    induction ls with
    | nil => exact ⟨[], .nil⟩
    | cons line rest ih =>
      obtain ⟨hline, hrest⟩ := List.forall_mem_cons.mp h
      obtain ⟨more, hmore⟩ := ih hrest
      obtain ⟨ws, hws⟩ | ⟨e, he⟩ := lineWords_or_lineError (ε := ε) 0 line
      · exact ⟨ws ++ more, .cons hws hmore⟩
      · exact absurd he (hline 0 e)

/-- Lines stand for words, up to the first that something is wrong with. -/
theorem exists_expands_or_lineError (number : Nat) (ls : List (List UInt8)) :
    (∃ ws, Expands ls ws) ∨ ∃ good bad rest, ∃ e : Error ε, ls = good ++ bad :: rest ∧
      (∃ ws, Expands good ws) ∧ LineError (good.length + number) bad e := by
  induction ls generalizing number with
  | nil => exact .inl ⟨[], .nil⟩
  | cons line rest ih =>
    obtain ⟨ws, hws⟩ | ⟨e, he⟩ := lineWords_or_lineError (ε := ε) number line
    · obtain ⟨more, hmore⟩ | ⟨good, bad, others, e, rfl, ⟨more, hmore⟩, hbad⟩ := ih (number + 1)
      · exact .inl ⟨ws ++ more, .cons hws hmore⟩
      · refine .inr ⟨line :: good, bad, others, e, rfl, ⟨ws ++ more, .cons hws hmore⟩, ?_⟩
        rwa [List.length_cons, Nat.add_assoc, Nat.add_comm 1]
    · refine .inr ⟨[], line, rest, e, rfl, ⟨[], .nil⟩, ?_⟩
      rwa [List.length_nil, Nat.zero_add]

/-- A file is an image, or does not start with the header, or has a first line that is wrong. -/
theorem isImage_or_error (file : ByteArray) :
    (∃ ws, IsImage file ws) ∨ (∃ e : Error ε, HeaderError file e) ∨
      ∃ good, ∃ e : Error ε, FirstBad file good e := by
  cases hlines : lines file.data.toList with
  | nil => exact .inr (.inl ⟨_, .noLines (lines_eq_nil_iff.mp hlines)⟩)
  | cons first rest =>
    by_cases htext : ∃ text, HasText first text
    · obtain ⟨text, htext⟩ := htext
      by_cases htrim : Text.trim text = header
      · obtain ⟨ws, hws⟩ | ⟨good, bad, others, e, rfl, hgood, hbad⟩ :=
          exists_expands_or_lineError (ε := ε) 2 rest
        · exact .inl ⟨ws, hlines, ⟨text, htext, htrim⟩, hws⟩
        · exact .inr (.inr ⟨good, e, hlines, ⟨text, htext, htrim⟩, exists_expands_iff.mp hgood, hbad⟩)
      · exact .inr (.inl ⟨_, .badHeader hlines htext htrim⟩)
    · exact .inr (.inl ⟨_, .notText hlines fun text h => htext ⟨text, h⟩⟩)

theorem IsImage.words_eq {file : ByteArray} {ws : List (BitVec 32)} (h : IsImage file ws) :
    (words file : Except (Error ε) _) = .ok ws := by
  obtain ⟨hlines, -, hwords⟩ := h
  rw [words, hlines]
  exact hwords.wordsOf_eq 2

theorem FirstBad.exists_expands {file : ByteArray} {good : List (List UInt8)} {e : Error ε}
    (h : FirstBad file good e) : ∃ ws, Expands good ws := by
  obtain ⟨-, -, hgood, -⟩ := h
  exact exists_expands_iff.mpr hgood

/-- An image stays one, of the same words, when a line is unrolled. -/
theorem IsImage.of_unrolled {file other : ByteArray} {ws : List (BitVec 32)} (h : IsImage file ws)
    (hunrolled : Unrolled file other) : IsImage other ws := by
  obtain ⟨hlines, hheader, hwords⟩ := h
  obtain ⟨hfile, hother, htext, htrim, hcount, hword, hsingle, htrim'⟩ := hunrolled
  rw [hlines] at hfile
  cases hfile
  obtain ⟨before, behind, rfl, hbefore, hbehind⟩ := hwords.split
  cases hbehind with
  | cons hline hafter =>
    rw [hline.unique (.copies htext htrim hcount hword)]
    refine ⟨hother, hheader, hbefore.append ?_⟩
    refine Expands.append (Expands.replicate ?_ _) hafter
    exact .word hsingle (by rw [htrim']; exact hword)

end Image
end RiscvSemantics
