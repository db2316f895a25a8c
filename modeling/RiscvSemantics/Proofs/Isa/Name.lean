import RiscvSemantics.Isa.Name
import RiscvSemantics.Proofs.Text.Blank

namespace RiscvSemantics.Isa

/-- What counts of a text: no white space around it, and only small letters. -/
def essence (text : String) : List Char :=
  (Text.trim text.toList).map Char.toLower

/-- What names of a register width start with. -/
inductive Base : Nat → List Char → Prop where
  | rv32 : Base 32 ['r', 'v', '3', '2']
  | rv64 : Base 64 ['r', 'v', '6', '4']

/-- The letters that can follow. -/
def IsLetter (c : Char) : Prop :=
  c ∈ ['i', 'm', 'a', 'f', 'd', 'c']

instance : DecidablePred IsLetter :=
  fun c => inferInstanceAs (Decidable (c ∈ ['i', 'm', 'a', 'f', 'd', 'c']))

/-- A text that names a register width and extensions: behind the base stand their letters and that of
    the base integer instructions, in any order and number. -/
inductive Names (text : String) (xlen : Nat) (e : Extensions) : Prop where
  | intro {base letters : List Char} (hbase : Base xlen base) (htext : essence text = base ++ letters)
      (hletters : ∀ c ∈ letters, IsLetter c) (hinteger : 'i' ∈ letters) (hdouble : 'd' ∈ letters → 'f' ∈ letters)
      (hflags : ∀ flag ∈ e.flags, flag.2 = true ↔ flag.1 ∈ letters)

/-- What is wrong with a text that names nothing. The first of several reasons counts, in this order. -/
inductive Refused (text : String) : IsaError → Prop where
  | badBase (hbase : ∀ xlen base letters, Base xlen base → essence text ≠ base ++ letters) : Refused text .badBase
  | missingBaseInteger {xlen : Nat} {base letters : List Char} (hbase : Base xlen base)
      (htext : essence text = base ++ letters) (hinteger : 'i' ∉ letters) : Refused text .missingBaseInteger
  | unknownExtension {xlen : Nat} {base early late : List Char} {c : Char} (hbase : Base xlen base)
      (htext : essence text = base ++ (early ++ c :: late)) (hinteger : 'i' ∈ early ++ c :: late)
      (hearly : ∀ letter ∈ early, IsLetter letter) (hunknown : ¬ IsLetter c) : Refused text (.unknownExtension c)
  | doubleWithoutFloat {xlen : Nat} {base letters : List Char} (hbase : Base xlen base)
      (htext : essence text = base ++ letters) (hinteger : 'i' ∈ letters) (hletters : ∀ c ∈ letters, IsLetter c)
      (hdouble : 'd' ∈ letters) (hfloat : 'f' ∉ letters) : Refused text .doubleWithoutFloat

/-- Two texts with the same base and the same letters behind it, in any order and number. -/
inductive SameLetters (text other : String) : Prop where
  | intro {xlen : Nat} {base letters letters' : List Char} (hbase : Base xlen base)
      (htext : essence text = base ++ letters) (hother : essence other = base ++ letters')
      (hsame : ∀ c, c ∈ letters ↔ c ∈ letters')

/-- What one letter switches on. -/
def switchOn (e : Extensions) (letter : Char) : Except IsaError Extensions :=
  match letter with
  | 'i' => .ok e
  | 'm' => .ok { e with m := true }
  | 'a' => .ok { e with a := true }
  | 'f' => .ok { e with f := true }
  | 'd' => .ok { e with d := true }
  | 'c' => .ok { e with c := true }
  | _ => .error (.unknownExtension letter)

/-- Looks at the extensions once all letters have been read. -/
def complete (xlen : Nat) (e : Extensions) : Except IsaError (Nat × Extensions) :=
  if e.d && !e.f then .error .doubleWithoutFloat else .ok (xlen, e)

/-- Reads a name letter by letter, and stops at the first one that is unknown. -/
def parseLetterwise (text : String) : Except IsaError (Nat × Extensions) :=
  match splitBase (essence text) with
  | none => .error .badBase
  | some (xlen, letters) =>
    if !letters.contains 'i' then .error .missingBaseInteger
    else do
      let extensions ← letters.foldlM switchOn Extensions.none
      complete xlen extensions

theorem splitBase_eq_some_iff {cs letters : List Char} {xlen : Nat} :
    splitBase cs = some (xlen, letters) ↔ ∃ base, Base xlen base ∧ cs = base ++ letters := by
  constructor
  · intro h
    rw [splitBase.eq_def] at h
    split at h
    · cases h
      exact ⟨_, .rv32, rfl⟩
    · cases h
      exact ⟨_, .rv64, rfl⟩
    · cases h
  · rintro ⟨base, hbase, rfl⟩
    cases hbase with
    | rv32 | rv64 => rfl

theorem splitBase_eq_none_iff {cs : List Char} :
    splitBase cs = none ↔ ∀ xlen base letters, Base xlen base → cs ≠ base ++ letters := by
  rw [Option.eq_none_iff_forall_ne_some]
  constructor
  · intro h xlen base letters hbase hcs
    exact h (xlen, letters) (splitBase_eq_some_iff.mpr ⟨base, hbase, hcs⟩)
  · rintro h ⟨xlen, letters⟩ hsplit
    obtain ⟨base, hbase, hcs⟩ := splitBase_eq_some_iff.mp hsplit
    exact h xlen base letters hbase hcs

theorem Base.unique {xlen : Nat} {base base' : List Char} (hbase : Base xlen base) (hbase' : Base xlen base') :
    base = base' := by
  cases hbase with
  | rv32 | rv64 =>
    cases hbase'
    rfl

theorem not_isExtensionLetter_iff {c : Char} : (!isExtensionLetter c) = true ↔ ¬ IsLetter c := by
  rw [Bool.not_eq_true', ← Bool.not_eq_true]
  exact not_congr List.contains_iff_mem

section Flags

variable (e : Extensions)

/-- The extensions, and those whose letters occur in a text. -/
def adding (letters : List Char) : Extensions :=
  ⟨e.m || letters.contains 'm', e.a || letters.contains 'a', e.f || letters.contains 'f',
    e.d || letters.contains 'd', e.c || letters.contains 'c'⟩

theorem adding_cons (c : Char) (letters : List Char) : adding e (c :: letters) = adding (adding e [c]) letters := by
  simp only [adding, List.contains_cons, List.contains_nil, Bool.or_false, Bool.or_assoc]

theorem switchOn_letter {c : Char} (hc : IsLetter c) : switchOn e c = .ok (adding e [c]) := by
  simp only [IsLetter, List.mem_cons, List.not_mem_nil, or_false] at hc
  obtain rfl | rfl | rfl | rfl | rfl | rfl := hc
  all_goals simp [switchOn, adding]

theorem switchOn_unknown {c : Char} (hc : ¬ IsLetter c) : switchOn e c = .error (.unknownExtension c) := by
  rw [switchOn.eq_def]
  split
  case h_7 => rfl
  all_goals exact absurd (by decide) hc

/-- Switching on one letter after the other switches on those that occur. -/
theorem foldlM_switchOn {letters : List Char} (hletters : ∀ c ∈ letters, IsLetter c) :
    letters.foldlM switchOn e = .ok (adding e letters) := by
  induction letters generalizing e with
  | nil => simp [adding, pure, Except.pure]
  | cons c rest ih =>
    obtain ⟨hc, hrest⟩ := List.forall_mem_cons.mp hletters
    rw [List.foldlM_cons, switchOn_letter e hc, adding_cons e c rest]
    exact ih (adding e [c]) hrest

theorem foldlM_switchOn_unknown {early late : List Char} {c : Char} (hearly : ∀ letter ∈ early, IsLetter letter)
    (hc : ¬ IsLetter c) : (early ++ c :: late).foldlM switchOn e = .error (.unknownExtension c) := by
  rw [List.foldlM_append, foldlM_switchOn e hearly]
  change (c :: late).foldlM switchOn (adding e early) = _
  rw [List.foldlM_cons, switchOn_unknown _ hc]
  rfl

theorem adding_none (letters : List Char) : adding .none letters = .ofLetters letters := rfl

theorem eq_ofLetters {letters : List Char} (hflags : ∀ flag ∈ e.flags, flag.2 = true ↔ flag.1 ∈ letters) :
    e = .ofLetters letters := by
  have hflag (letter : Char) (on : Bool) (hmem : (letter, on) ∈ e.flags) : on = letters.contains letter := by
    rw [Bool.eq_iff_iff, List.contains_iff_mem]
    exact hflags (letter, on) hmem
  simp only [Extensions.flags, List.mem_cons] at hflag
  rw [Extensions.ofLetters, ← hflag 'm' e.m (by simp), ← hflag 'a' e.a (by simp), ← hflag 'f' e.f (by simp),
    ← hflag 'd' e.d (by simp), ← hflag 'c' e.c (by simp)]

end Flags

section Parsing

variable {text : String} {xlen : Nat} {base letters : List Char}

theorem splitBase_essence (hbase : Base xlen base) (htext : essence text = base ++ letters) :
    splitBase ((Text.trim text.toList).map Char.toLower) = some (xlen, letters) :=
  splitBase_eq_some_iff.mpr ⟨base, hbase, htext⟩

theorem contains_integer (hinteger : 'i' ∈ letters) : (!letters.contains 'i') = false := by
  rw [List.contains_iff_mem.mpr hinteger]
  rfl

/-- When nothing is wrong with the letters, the extensions are looked at. -/
theorem parse_letters (hbase : Base xlen base) (htext : essence text = base ++ letters) (hinteger : 'i' ∈ letters)
    (hletters : ∀ c ∈ letters, IsLetter c) :
    parse text = complete xlen (.ofLetters letters) ∧
      parseLetterwise text = complete xlen (.ofLetters letters) := by
  have hfind : letters.find? (fun c => !isExtensionLetter c) = none := by
    rw [List.find?_eq_none]
    intro c hc hunknown
    exact not_isExtensionLetter_iff.mp hunknown (hletters c hc)
  rw [parse, parseLetterwise, essence, splitBase_essence hbase htext]
  dsimp only
  rw [contains_integer hinteger, hfind, foldlM_switchOn _ hletters, adding_none]
  exact ⟨rfl, rfl⟩

/-- A text that names something is read as what it names, at once and letter by letter. -/
theorem Names.parse_eq {e : Extensions} (h : Names text xlen e) :
    parse text = .ok (xlen, e) ∧ parseLetterwise text = .ok (xlen, e) := by
  obtain @⟨base, letters, hbase, htext, hletters, hinteger, hdouble, hflags⟩ := h
  obtain rfl := eq_ofLetters e hflags
  have hcomplete : complete xlen (.ofLetters letters) = .ok (xlen, .ofLetters letters) := by
    apply if_neg
    simpa [Extensions.ofLetters] using hdouble
  rw [← hcomplete]
  exact parse_letters hbase htext hinteger hletters

/-- What is wrong with a text is what is reported. -/
theorem Refused.parse_eq {error : IsaError} (h : Refused text error) :
    parse text = .error error ∧ parseLetterwise text = .error error := by
  cases h with
  | badBase hbase =>
    have hsplit : splitBase ((Text.trim text.toList).map Char.toLower) = none := splitBase_eq_none_iff.mpr hbase
    rw [parse, parseLetterwise, essence, hsplit]
    exact ⟨rfl, rfl⟩
  | @missingBaseInteger xlen base letters hbase htext hinteger =>
    have hcontains : (!letters.contains 'i') = true := by
      rw [Bool.not_eq_true', ← Bool.not_eq_true, List.contains_iff_mem]
      exact hinteger
    rw [parse, parseLetterwise, essence, splitBase_essence hbase htext]
    dsimp only
    rw [hcontains]
    exact ⟨rfl, rfl⟩
  | @unknownExtension xlen base early late c hbase htext hinteger hearly hunknown =>
    have hfind : (early ++ c :: late).find? (fun c => !isExtensionLetter c) = some c := by
      rw [List.find?_eq_some_iff_append]
      refine ⟨not_isExtensionLetter_iff.mpr hunknown, early, late, rfl, fun letter hletter => ?_⟩
      rw [Bool.not_eq_true', ← Bool.not_eq_true, not_isExtensionLetter_iff]
      exact not_not_intro (hearly letter hletter)
    rw [parse, parseLetterwise, essence, splitBase_essence hbase htext]
    dsimp only
    rw [contains_integer hinteger, hfind, foldlM_switchOn_unknown _ hearly hunknown]
    exact ⟨rfl, rfl⟩
  | @doubleWithoutFloat xlen base letters hbase htext hinteger hletters hdouble hfloat =>
    have hcomplete : complete xlen (.ofLetters letters) = .error .doubleWithoutFloat := by
      apply if_pos
      simp [Extensions.ofLetters, hdouble, hfloat]
    rw [← hcomplete]
    exact parse_letters hbase htext hinteger hletters

/-- Every text names something, or something is wrong with it. -/
theorem names_or_refused (text : String) : (∃ xlen e, Names text xlen e) ∨ ∃ error, Refused text error := by
  by_cases hbase : ∃ xlen base letters, Base xlen base ∧ essence text = base ++ letters
  · obtain ⟨xlen, base, letters, hbase, htext⟩ := hbase
    by_cases hinteger : 'i' ∈ letters
    · cases hfind : letters.find? fun c => !isExtensionLetter c with
      | some c =>
        obtain ⟨hunknown, early, late, rfl, hearly⟩ := List.find?_eq_some_iff_append.mp hfind
        refine .inr ⟨_, .unknownExtension hbase htext hinteger (fun letter hletter => ?_)
          (not_isExtensionLetter_iff.mp hunknown)⟩
        have hknown := hearly letter hletter
        rw [Bool.not_not] at hknown
        exact List.contains_iff_mem.mp hknown
      | none =>
        have hletters : ∀ c ∈ letters, IsLetter c := by
          intro c hc
          have hknown := List.find?_eq_none.mp hfind c hc
          rwa [not_isExtensionLetter_iff, not_not] at hknown
        by_cases hdouble : 'd' ∈ letters → 'f' ∈ letters
        · refine .inl ⟨xlen, .ofLetters letters, hbase, htext, hletters, hinteger, hdouble, ?_⟩
          simp [Extensions.flags, Extensions.ofLetters]
        · rw [Classical.not_imp] at hdouble
          exact .inr ⟨_, .doubleWithoutFloat hbase htext hinteger hletters hdouble.1 hdouble.2⟩
    · exact .inr ⟨_, .missingBaseInteger hbase htext hinteger⟩
  · refine .inr ⟨_, .badBase fun xlen base letters hbase' htext => ?_⟩
    exact hbase ⟨xlen, base, letters, hbase', htext⟩

theorem parse_eq_ok_iff {e : Extensions} : parse text = .ok (xlen, e) ↔ Names text xlen e := by
  refine ⟨fun hparse => ?_, fun h => h.parse_eq.1⟩
  obtain ⟨xlen', e', h⟩ | ⟨error, h⟩ := names_or_refused text
  · rw [h.parse_eq.1] at hparse
    cases hparse
    exact h
  · rw [h.parse_eq.1] at hparse
    cases hparse

theorem parse_eq_error_iff {error : IsaError} : parse text = .error error ↔ Refused text error := by
  refine ⟨fun hparse => ?_, fun h => h.parse_eq.1⟩
  obtain ⟨xlen', e', h⟩ | ⟨error', h⟩ := names_or_refused text
  · rw [h.parse_eq.1] at hparse
    cases hparse
  · rw [h.parse_eq.1] at hparse
    cases hparse
    exact h

theorem parseLetterwise_eq (text : String) : parseLetterwise text = parse text := by
  obtain ⟨_, _, h⟩ | ⟨_, h⟩ := names_or_refused text
  · exact h.parse_eq.2.trans h.parse_eq.1.symm
  · exact h.parse_eq.2.trans h.parse_eq.1.symm

end Parsing

section Variants

variable {text other : String}

theorem parse_congr (h : essence other = essence text) : parse other = parse text := by
  rw [parse, parse, ← essence, ← essence, h]

theorem essence_surrounded {front back : List Char} (hfront : ∀ c ∈ front, Text.isBlank c)
    (hback : ∀ c ∈ back, Text.isBlank c) :
    essence (String.ofList (front ++ (text.toList ++ back))) = essence text := by
  rw [essence, essence, String.toList_ofList, Text.trim_append_blank _ hfront hback]

theorem essence_of_case (h : other.toList.map Char.toLower = text.toList.map Char.toLower) :
    essence other = essence text := by
  rw [essence, essence, Text.map_toLower_trim, Text.map_toLower_trim, h]

theorem SameLetters.names (hsame : SameLetters text other) {xlen : Nat} {e : Extensions}
    (h : Names text xlen e) : Names other xlen e := by
  obtain @⟨xlen', base', letters', letters'', hbase', htext', hother, hsame⟩ := hsame
  obtain @⟨base, letters, hbase, htext, hletters, hinteger, hdouble, hflags⟩ := h
  have hsplit := splitBase_essence hbase htext
  rw [splitBase_essence hbase' htext'] at hsplit
  cases hsplit
  refine ⟨hbase', hother, fun c hc => hletters c ((hsame c).mpr hc), (hsame 'i').mp hinteger, fun hd => ?_,
    fun flag hflag => ?_⟩
  · exact (hsame 'f').mp (hdouble ((hsame 'd').mpr hd))
  · rw [hflags flag hflag, hsame]

end Variants

/-- Reading accepts the names of instruction sets and nothing else, and of several reasons to refuse a text
    gives the first, at once as letter by letter. White space around a text and the case of its letters do
    not matter, nor do the order and number of the letters of a name. -/
theorem parse_decides (text : String) :
    (∀ xlen e, parse text = .ok (xlen, e) ↔ Names text xlen e) ∧
    (∀ error, parse text = .error error ↔ Refused text error) ∧
    parseLetterwise text = parse text ∧
    (∀ front back : List Char, (∀ c ∈ front, Text.isBlank c) → (∀ c ∈ back, Text.isBlank c) →
      parse (String.ofList (front ++ (text.toList ++ back))) = parse text) ∧
    (∀ other : String, other.toList.map Char.toLower = text.toList.map Char.toLower →
      parse other = parse text) ∧
    ∀ other xlen e, parse text = .ok (xlen, e) → SameLetters text other → parse other = .ok (xlen, e) := by
  refine ⟨fun xlen e => parse_eq_ok_iff, fun error => parse_eq_error_iff, parseLetterwise_eq text,
    fun front back hfront hback => parse_congr (essence_surrounded hfront hback),
    fun other hcase => parse_congr (essence_of_case hcase), fun other xlen e hparse hsame => ?_⟩
  exact parse_eq_ok_iff.mpr (hsame.names (parse_eq_ok_iff.mp hparse))

/-- Behind the base stands no `i`, or an unknown letter in front of a `d` without `f`, or the letters of a
    name, some of them twice. -/
theorem parse_decides_letters :
    parse "rv32mdq" = .error .missingBaseInteger ∧ parse "rv32imqd" = .error (.unknownExtension 'q') ∧
      parse "\tRv32MDfi\n" = .ok (32, ⟨true, false, true, true, false⟩) ∧
      parse "rv32iiffddm" = .ok (32, ⟨true, false, true, true, false⟩) := by
  obtain ⟨-, hinteger, -⟩ := parse_decides "rv32mdq"
  obtain ⟨-, hunknown, -⟩ := parse_decides "rv32imqd"
  obtain ⟨hok, -, -, hblank, -, hletters⟩ := parse_decides "Rv32MDfi"
  have htext : essence "Rv32MDfi" = "rv32".toList ++ ['m', 'd', 'f', 'i'] := by decide
  have hother : essence "rv32iiffddm" = "rv32".toList ++ ['i', 'i', 'f', 'f', 'd', 'd', 'm'] := by decide
  have hmissing : essence "rv32mdq" = "rv32".toList ++ ['m', 'd', 'q'] := by decide
  have hmiddle : essence "rv32imqd" = "rv32".toList ++ (['i', 'm'] ++ 'q' :: ['d']) := by decide
  have hnames : parse "Rv32MDfi" = .ok (32, ⟨true, false, true, true, false⟩) :=
    (hok 32 _).mpr (.intro .rv32 htext (by simp [IsLetter]) (by decide) (by decide) (by decide))
  have hsame : SameLetters "Rv32MDfi" "rv32iiffddm" := by
    refine .intro .rv32 htext hother fun c => ?_
    simp only [List.mem_cons, List.not_mem_nil]
    grind
  refine ⟨(hinteger _).mpr ?_, (hunknown _).mpr ?_, ?_, hletters _ _ _ hnames hsame⟩
  · exact .missingBaseInteger .rv32 hmissing (by decide)
  · exact .unknownExtension .rv32 hmiddle (by decide) (by simp [IsLetter]) (by decide)
  · exact (hblank ['\t'] ['\n'] (List.forall_mem_singleton.mpr rfl) (List.forall_mem_singleton.mpr rfl)).trans hnames

end RiscvSemantics.Isa
