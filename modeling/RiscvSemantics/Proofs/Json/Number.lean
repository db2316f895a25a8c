import Mathlib.Data.List.Basic
import Mathlib.Data.List.Induction
import RiscvSemantics.Json.Number
import RiscvSemantics.Proofs.Json.Reading
import RiscvSemantics.Proofs.Text.Numeral

namespace RiscvSemantics.Json

section Decimal

/-- The byte of a digit. -/
def digitByte (d : Nat) : UInt8 :=
  (Nat.digitChar d).toUInt8

/-- A number in base 10, without zeros in front of it. -/
def decimal (n : Nat) : List UInt8 :=
  (Nat.toDigits 10 n).map Char.toUInt8

/-- The number that digits stand for, behind those that stand for `acc`. -/
def digitsValue (acc : Nat) (digits : List UInt8) : Nat :=
  digits.foldl (fun n b => n * 10 + digitOf b) acc

variable {n acc : Nat} {digits : List UInt8} {b : UInt8}

theorem digitByte_spec : ∀ d < 10, isDigit (digitByte d) ∧ digitOf (digitByte d) = d := by
  decide

theorem isDigit_iff : isDigit b ↔ 0x30 ≤ b.toNat ∧ b.toNat ≤ 0x39 := by
  simp [isDigit, UInt8.le_iff_toNat_le]

theorem digitOf_lt (hb : isDigit b) : digitOf b < 10 := by
  rw [isDigit_iff] at hb
  rw [digitOf]
  omega

theorem digitByte_digitOf (hb : isDigit b) : digitByte (digitOf b) = b := by
  obtain ⟨hdigit, hvalue⟩ := digitByte_spec (digitOf b) (digitOf_lt hb)
  rw [isDigit_iff] at hb hdigit
  apply UInt8.toNat_inj.mp
  rw [digitOf, digitOf] at hvalue
  rw [digitOf] at hdigit ⊢
  omega

theorem decimal_eq (n : Nat) :
    decimal n = if n < 10 then [digitByte n] else decimal (n / 10) ++ [digitByte (n % 10)] := by
  rw [decimal, Nat.toDigits_eq_if (by decide)]
  split
  · rfl
  · exact List.map_append

theorem decimal_ne_nil : decimal n ≠ [] := by
  rw [decimal, Ne, List.map_eq_nil_iff]
  exact Nat.toDigits_ne_nil

theorem isDigit_of_mem_decimal : ∀ b ∈ decimal n, isDigit b := by
  intro b hb
  obtain ⟨c, hc, rfl⟩ := List.mem_map.mp hb
  obtain ⟨d, hd, rfl⟩ := Text.exists_of_mem_toDigits (by decide) hc
  exact (digitByte_spec d hd).1

theorem digitsValue_append (front : List UInt8) :
    digitsValue acc (front ++ [b]) = digitsValue acc front * 10 + digitOf b := by
  rw [digitsValue, List.foldl_append]
  rfl

theorem digitsValue_decimal (n : Nat) : digitsValue 0 (decimal n) = n := by
  induction n using Nat.strongRecOn with
  | ind n ih =>
    rw [decimal_eq]
    split
    case isTrue hlt =>
      have hvalue := (digitByte_spec n hlt).2
      rw [digitsValue, List.foldl_cons, List.foldl_nil, hvalue, Nat.zero_mul, Nat.zero_add]
    case isFalse hge =>
      rw [digitsValue_append, ih (n / 10) (by omega), (digitByte_spec (n % 10) (by omega)).2]
      exact Nat.div_add_mod' n 10

/-- Only zero starts with a zero. -/
theorem eq_zero_of_head?_decimal (h : (decimal n).head? = some '0'.toUInt8) : n = 0 := by
  induction n using Nat.strongRecOn with
  | ind n ih =>
    rw [decimal_eq] at h
    split at h
    case isTrue hlt =>
      have hvalue := (digitByte_spec n hlt).2
      rw [List.head?_cons, Option.some.injEq] at h
      rw [h] at hvalue
      exact hvalue.symm
    case isFalse hge =>
      rw [List.head?_append_of_ne_nil _ decimal_ne_nil] at h
      have hfront := ih (n / 10) (by omega) h
      omega

theorem length_decimal_of_head? (h : (decimal n).head? = some '0'.toUInt8) : (decimal n).length = 1 := by
  rw [eq_zero_of_head?_decimal h]
  rfl

/-- Digits with no zero in front of them are how their value is written. -/
theorem decimal_digitsValue (hne : digits ≠ []) (hdigits : ∀ b ∈ digits, isDigit b)
    (hzero : digits.head? = some '0'.toUInt8 → digits.length = 1) : decimal (digitsValue 0 digits) = digits := by
  induction digits using List.reverseRecOn with
  | nil => exact absurd rfl hne
  | append_singleton front b ih =>
    have hb : isDigit b := hdigits b (by simp)
    by_cases hfront : front = []
    · subst hfront
      have hsingle : digitsValue 0 ([] ++ [b]) = digitOf b := by
        rw [digitsValue_append, digitsValue, List.foldl_nil, Nat.zero_mul, Nat.zero_add]
      rw [hsingle, decimal_eq, if_pos (digitOf_lt hb), digitByte_digitOf hb, List.nil_append]
    · have hlength : 0 < front.length := List.length_pos_iff.mpr hfront
      have hhead : front.head? ≠ some '0'.toUInt8 := by
        intro hhead
        rw [← List.head?_append_of_ne_nil _ hfront] at hhead
        have hone := hzero hhead
        rw [List.length_append, List.length_singleton] at hone
        omega
      have hwritten : decimal (digitsValue 0 front) = front :=
        ih hfront (fun b hb => hdigits b (List.mem_append_left _ hb)) (fun h => absurd h hhead)
      have hpositive : digitsValue 0 front ≠ 0 := by
        intro hnone
        rw [hnone] at hwritten
        exact hhead (hwritten ▸ rfl)
      have hlt := digitOf_lt hb
      rw [digitsValue_append, decimal_eq, if_neg (by omega)]
      rw [show (digitsValue 0 front * 10 + digitOf b) / 10 = digitsValue 0 front by omega,
        show (digitsValue 0 front * 10 + digitOf b) % 10 = digitOf b by omega, hwritten, digitByte_digitOf hb]

/-- How whole numbers are written. -/
theorem exists_decimal_iff :
    (∃ n, digits = decimal n) ↔ digits ≠ [] ∧ (∀ b ∈ digits, isDigit b) ∧
      (digits.head? = some '0'.toUInt8 → digits.length = 1) := by
  constructor
  · rintro ⟨n, rfl⟩
    exact ⟨decimal_ne_nil, isDigit_of_mem_decimal, length_decimal_of_head?⟩
  · rintro ⟨hne, hdigits, hzero⟩
    exact ⟨_, (decimal_digitsValue hne hdigits hzero).symm⟩

theorem le_digitsValue : acc ≤ digitsValue acc digits := by
  induction digits generalizing acc with
  | nil => exact Nat.le_refl _
  | cons b others ih =>
    have hstep : acc ≤ acc * 10 + digitOf b := by omega
    exact Nat.le_trans hstep ih

/-- All digits are taken where the number stays small, and only there. -/
theorem absorb_eq_nil_iff (hacc : acc < UInt64.size) :
    (absorb acc digits).2.2 = [] ↔ digitsValue acc digits < UInt64.size := by
  induction digits generalizing acc with
  | nil => exact iff_of_true rfl hacc
  | cons b others ih =>
    rw [absorb]
    split
    case isTrue hnext => exact ih hnext
    case isFalse hnext =>
      have hgrows : acc * 10 + digitOf b ≤ digitsValue acc (b :: others) := le_digitsValue
      exact iff_of_false (List.cons_ne_nil _ _) (by omega)

theorem absorb_fst (h : digitsValue acc digits < UInt64.size) : (absorb acc digits).1 = digitsValue acc digits := by
  induction digits generalizing acc with
  | nil => rfl
  | cons b others ih =>
    have hnext : acc * 10 + digitOf b < UInt64.size := Nat.lt_of_le_of_lt le_digitsValue h
    rw [absorb]
    exact (congrArg Prod.fst (if_pos hnext)).trans (ih h)

end Decimal

section Readers

/-- A reader that gives nothing but numbers in floating point. -/
def Floats (r : Reader Number) : Prop :=
  ∀ ⦃text x rest⦄, Reads r text x rest → ∃ y, x = .float y

variable {positive : Bool} {m n : Nat} {exponent : Int} {text rest : List UInt8}

theorem Floats.bind {β : Type} {r : Reader β} {f : β → Reader Number} (h : ∀ b, Floats (f b)) :
    Floats (r >>= f) := by
  intro text x rest hreads
  obtain ⟨b, middle, -, hnext⟩ := reads_bind.mp hreads
  exact h b hnext

theorem Floats.pure {y : Float} : Floats (pure (.float y)) :=
  fun _ _ _ h => ⟨y, (reads_pure.mp h).1.symm⟩

theorem Floats.throw {e : Error} : Floats (throw e) :=
  fun _ _ _ h => absurd h reads_throw

theorem floats_floatOf : Floats (floatOf positive m exponent) := by
  rw [floatOf]
  split
  · exact .pure
  · exact .throw

theorem floats_readExponent : Floats (readExponent positive m exponent) := by
  rw [readExponent]
  dsimp only
  -- behind every reading and test a float is given, or the reading fails
  repeat' first
    | exact floats_floatOf
    | exact .pure
    | exact .throw
    | refine .bind fun _ => ?_
    | split

theorem floats_readFraction : Floats (readFraction positive m exponent) := by
  rw [readFraction]
  dsimp only
  repeat' first
    | exact floats_readExponent
    | exact floats_floatOf
    | exact .throw
    | refine .bind fun _ => ?_
    | split

theorem Floats.not_unsigned {r : Reader Number} (h : Floats r) : ¬ Reads r text (.unsigned n) rest := by
  intro hreads
  obtain ⟨y, hy⟩ := h hreads
  cases hy

/-- What stands here does not go on with a number. -/
structure Ends (rest : List UInt8) : Prop where
  noDigit : NoDigit rest
  noPoint : rest.head? ≠ some '.'.toUInt8
  noSmallE : rest.head? ≠ some 'e'.toUInt8
  noLargeE : rest.head? ≠ some 'E'.toUInt8

theorem wholeNumber_eq_unsigned_iff : wholeNumber positive m = .unsigned n ↔ positive = true ∧ m = n := by
  rw [wholeNumber]
  split
  case isTrue hpositive => simp [hpositive]
  case isFalse hnegative =>
    refine iff_of_false ?_ (fun h => hnegative h.1)
    split
    · exact nofun
    · exact nofun

theorem Digits.exists_cons {b : UInt8} {others digits : List UInt8} (h : Digits (b :: others) digits rest)
    (hb : isDigit b) : ∃ front, digits = b :: front := by
  obtain ⟨htext, -, hends⟩ := h
  cases digits with
  | nil =>
    subst htext
    rw [hends b rfl] at hb
    cases hb
  | cons b' front => exact ⟨front, by rw [(List.cons.inj htext).1]⟩

/-- The digits are those of a whole number. -/
theorem digits_whole_iff {b : UInt8} {others : List UInt8} :
    Digits text (b :: others) rest ∧ (b = '0'.toUInt8 → others = []) ↔
      (∃ n, b :: others = decimal n) ∧ text = b :: others ++ rest ∧ NoDigit rest := by
  have hzero : (b = '0'.toUInt8 → others = []) ↔
      ((b :: others).head? = some '0'.toUInt8 → (b :: others).length = 1) := by
    simp
  rw [exists_decimal_iff, hzero]
  constructor
  · rintro ⟨⟨htext, hdigits, hends⟩, hfirst⟩
    exact ⟨⟨List.cons_ne_nil b others, hdigits, hfirst⟩, htext, hends⟩
  · rintro ⟨⟨-, hdigits, hfirst⟩, htext, hends⟩
    exact ⟨⟨htext, hdigits, hends⟩, hfirst⟩

/-- What is read as a whole number is that number written out, and no other way to write it is. -/
theorem reads_readNumber :
    Reads (readNumber positive) text (.unsigned n) rest ↔
      positive = true ∧ n < UInt64.size ∧ text = decimal n ++ rest ∧ Ends rest := by
  cases text with
  | nil =>
    refine iff_of_false (by simp [readNumber]) ?_
    rintro ⟨-, -, htext, -⟩
    exact List.append_ne_nil_of_left_ne_nil decimal_ne_nil rest htext.symm
  | cons b others =>
    -- whatever has a fraction or an exponent, or is too large, is kept in floating point
    have hreads : Reads (readNumber positive) (b :: others) (.unsigned n) rest ↔
        isDigit b ∧ ∃ digits, Digits (b :: others) digits rest ∧ (b = '0'.toUInt8 → digits.length ≤ 1) ∧
          rest.head? ≠ some '.'.toUInt8 ∧ (rest.head? ≠ some 'e'.toUInt8 ∧ rest.head? ≠ some 'E'.toUInt8) ∧
          (absorb 0 digits).2.2 = [] ∧ positive = true ∧ (absorb 0 digits).1 = n := by
      simp [readNumber, floats_readFraction.not_unsigned, floats_readExponent.not_unsigned,
        floats_floatOf.not_unsigned, wholeNumber_eq_unsigned_iff]
    rw [hreads]
    constructor
    · rintro ⟨hb, digits, hdigits, hzero, hpoint, ⟨hsmall, hlarge⟩, hleft, hpositive, hvalue⟩
      obtain ⟨front, rfl⟩ := hdigits.exists_cons hb
      have hfront : b = '0'.toUInt8 → front = [] := by simpa using hzero
      obtain ⟨⟨m, hm⟩, htext, hends⟩ := digits_whole_iff.mp ⟨hdigits, hfront⟩
      rw [hm] at hleft hvalue htext
      have hlt := (absorb_eq_nil_iff (by decide)).mp hleft
      rw [absorb_fst hlt, digitsValue_decimal] at hvalue
      rw [digitsValue_decimal] at hlt
      subst hvalue
      exact ⟨hpositive, hlt, htext, hends, hpoint, hsmall, hlarge⟩
    · rintro ⟨hpositive, hlt, htext, hends, hpoint, hsmall, hlarge⟩
      obtain ⟨b', front, hn⟩ := List.exists_cons_of_ne_nil (decimal_ne_nil (n := n))
      have hvalue : digitsValue 0 (b' :: front) = n := by rw [← hn, digitsValue_decimal]
      rw [hn] at htext
      obtain ⟨rfl, rfl⟩ := List.cons.inj htext
      obtain ⟨hdigits, hzero⟩ := digits_whole_iff.mpr ⟨⟨n, hn.symm⟩, rfl, hends⟩
      have hlength : b = '0'.toUInt8 → (b :: front).length ≤ 1 := by simpa using hzero
      rw [← hvalue] at hlt
      refine ⟨hdigits.digits b List.mem_cons_self, _, hdigits, hlength, hpoint, ⟨hsmall, hlarge⟩,
        (absorb_eq_nil_iff (by decide)).mpr hlt, hpositive, ?_⟩
      rw [absorb_fst hlt, hvalue]

end Readers

section Passed

variable {text rest : List UInt8}

/-- What may stand behind the digits of a whole number. -/
inductive Fraction : List UInt8 → List UInt8 → Prop where
  | none {rest : List UInt8} (hnone : rest.head? ≠ some '.'.toUInt8) : Fraction rest rest
  | digits {written digits rest : List UInt8} (hne : digits ≠ []) (hdigits : Digits written digits rest) :
    Fraction ('.'.toUInt8 :: written) rest

/-- What may stand behind a fraction: a power of ten, with its sign or without. -/
inductive Exponent : List UInt8 → List UInt8 → Prop where
  | none {rest : List UInt8} (hsmall : rest.head? ≠ some 'e'.toUInt8) (hlarge : rest.head? ≠ some 'E'.toUInt8) :
    Exponent rest rest
  | plain {e : UInt8} {written digits rest : List UInt8} (he : e = 'e'.toUInt8 ∨ e = 'E'.toUInt8)
      (hne : digits ≠ []) (hdigits : Digits written digits rest) : Exponent (e :: written) rest
  | signed {e sign : UInt8} {written digits rest : List UInt8} (he : e = 'e'.toUInt8 ∨ e = 'E'.toUInt8)
      (hsign : sign = '+'.toUInt8 ∨ sign = '-'.toUInt8) (hne : digits ≠ [])
      (hdigits : Digits written digits rest) : Exponent (e :: sign :: written) rest

/-- A number without its sign, to its end. -/
inductive Numeral (text rest : List UInt8) : Prop where
  | intro {n : Nat} {behind more : List UInt8} (htext : text = decimal n ++ behind) (hwhole : NoDigit behind)
      (hfraction : Fraction behind more) (hexponent : Exponent more rest)

theorem fraction_iff : Fraction text rest ↔
    if text.head? = some '.'.toUInt8 then ∃ digits, Digits text.tail digits rest ∧ digits ≠ [] else text = rest := by
  constructor
  · rintro (hnone | ⟨hne, hdigits⟩)
    · rw [if_neg hnone]
    · exact (if_pos rfl).mpr ⟨_, hdigits, hne⟩
  · intro h
    split at h
    case isTrue hpoint =>
      obtain ⟨digits, hdigits, hne⟩ := h
      obtain ⟨written, rfl⟩ := List.head?_eq_some_iff.mp hpoint
      exact .digits hne hdigits
    case isFalse hnone =>
      subst h
      exact .none hnone

/-- No sign stands where digits do. -/
theorem Digits.unsigned {digits : List UInt8} (h : Digits text digits rest) (hne : digits ≠ []) :
    ¬ (text.head? = some '+'.toUInt8 ∨ text.head? = some '-'.toUInt8) := by
  obtain ⟨rfl, hdigits, -⟩ := h
  cases digits with
  | nil => exact absurd rfl hne
  | cons b others =>
    have hb := hdigits b List.mem_cons_self
    rintro (⟨⟨⟩⟩ | ⟨⟨⟩⟩)
    · cases hb
    · cases hb

theorem exponent_iff : Exponent text rest ↔
    if text.head? = some 'e'.toUInt8 ∨ text.head? = some 'E'.toUInt8 then
      if text.tail.head? = some '+'.toUInt8 ∨ text.tail.head? = some '-'.toUInt8 then
        ∃ digits, Digits text.tail.tail digits rest ∧ digits ≠ []
      else ∃ digits, Digits text.tail digits rest ∧ digits ≠ []
    else text = rest := by
  constructor
  · rintro (⟨hsmall, hlarge⟩ | ⟨he, hne, hdigits⟩ | ⟨he, hsign, hne, hdigits⟩)
    · rw [if_neg (not_or_intro hsmall hlarge)]
    · refine (if_pos (he.imp (congrArg some) (congrArg some))).mpr ?_
      exact (if_neg (hdigits.unsigned hne)).mpr ⟨_, hdigits, hne⟩
    · refine (if_pos (he.imp (congrArg some) (congrArg some))).mpr ?_
      exact (if_pos (hsign.imp (congrArg some) (congrArg some))).mpr ⟨_, hdigits, hne⟩
  · intro h
    split at h
    case isTrue he =>
      cases text with
      | nil => simp at he
      | cons e behind =>
        rw [List.head?_cons, Option.some.injEq, Option.some.injEq] at he
        rw [List.tail_cons] at h
        split at h
        case isTrue hsign =>
          obtain ⟨digits, hdigits, hne⟩ := h
          cases behind with
          | nil => simp at hsign
          | cons sign written =>
            rw [List.head?_cons, Option.some.injEq, Option.some.injEq] at hsign
            exact .signed he hsign hne hdigits
        case isFalse =>
          obtain ⟨digits, hdigits, hne⟩ := h
          exact .plain he hne hdigits
    case isFalse hnone =>
      subst h
      exact .none (fun h => hnone (.inl h)) (fun h => hnone (.inr h))

theorem exists_list_iff {p : List UInt8 → Prop} : (∃ l, p l) ↔ p [] ∨ ∃ b l, p (b :: l) := by
  constructor
  · rintro ⟨_ | ⟨b, l⟩, h⟩
    · exact .inl h
    · exact .inr ⟨b, l, h⟩
  · rintro (h | ⟨b, l, h⟩)
    · exact ⟨_, h⟩
    · exact ⟨_, h⟩

theorem exists_fraction_iff {p : List UInt8 → Prop} : (∃ more, Fraction text more ∧ p more) ↔
    if text.head? = some '.'.toUInt8 then ∃ digits more, Digits text.tail digits more ∧ digits ≠ [] ∧ p more
    else p text := by
  simp only [fraction_iff]
  split
  · constructor
    · rintro ⟨more, ⟨digits, hdigits, hne⟩, hp⟩
      exact ⟨digits, more, hdigits, hne, hp⟩
    · rintro ⟨digits, more, hdigits, hne, hp⟩
      exact ⟨more, ⟨digits, hdigits, hne⟩, hp⟩
  · exact exists_eq_left'

/-- A number that is passed over is one in the notation of the format, all of it. -/
theorem reads_skipNumber {u : Unit} : Reads skipNumber text u rest ↔ Numeral text rest := by
  have hreads : Reads skipNumber text u rest ↔ ∃ b others behind, Digits text (b :: others) behind ∧
      (b = '0'.toUInt8 → others = []) ∧ ∃ more, Fraction behind more ∧ Exponent more rest := by
    simp [skipNumber, exists_list_iff (p := fun l => ∃ middle, Digits text l middle ∧ _), exists_fraction_iff,
      exponent_iff]
  rw [hreads]
  constructor
  · rintro ⟨b, others, behind, hdigits, hzero, more, hfraction, hexponent⟩
    obtain ⟨⟨n, hn⟩, htext, hends⟩ := digits_whole_iff.mp ⟨hdigits, hzero⟩
    exact ⟨hn ▸ htext, hends, hfraction, hexponent⟩
  · rintro ⟨htext, hends, hfraction, hexponent⟩
    obtain ⟨b, others, hn⟩ := List.exists_cons_of_ne_nil decimal_ne_nil
    rw [hn] at htext
    obtain ⟨hdigits, hzero⟩ := digits_whole_iff.mpr ⟨⟨_, hn.symm⟩, htext, hends⟩
    exact ⟨b, others, _, hdigits, hzero, _, hfraction, hexponent⟩

theorem Digits.length_eq {digits : List UInt8} (h : Digits text digits rest) :
    text.length = digits.length + rest.length := by
  rw [h.text_eq, List.length_append]

theorem Fraction.length_le (h : Fraction text rest) : rest.length ≤ text.length := by
  obtain _ | ⟨-, hdigits⟩ := h
  · exact Nat.le_refl _
  · rw [List.length_cons, hdigits.length_eq]
    omega

theorem Exponent.length_le (h : Exponent text rest) : rest.length ≤ text.length := by
  obtain ⟨-, -⟩ | ⟨-, -, hdigits⟩ | ⟨-, -, -, hdigits⟩ := h
  · exact Nat.le_refl _
  · rw [List.length_cons, hdigits.length_eq]
    omega
  · rw [List.length_cons, List.length_cons, hdigits.length_eq]
    omega

theorem Numeral.length_lt (h : Numeral text rest) : rest.length < text.length := by
  obtain @⟨n, _, _, rfl, -, hfraction, hexponent⟩ := h
  have hwhole := List.length_pos_iff.mpr (decimal_ne_nil (n := n))
  have hbehind := hfraction.length_le
  have hmore := hexponent.length_le
  rw [List.length_append]
  omega

theorem exists_digit_decimal (n : Nat) : ∃ b others, decimal n = b :: others ∧ isDigit b := by
  obtain ⟨b, others, hn⟩ := List.exists_cons_of_ne_nil (decimal_ne_nil (n := n))
  exact ⟨b, others, hn, isDigit_of_mem_decimal b (hn ▸ List.mem_cons_self)⟩

theorem Numeral.exists_digit (h : Numeral text rest) : ∃ b others, text = b :: others ∧ isDigit b := by
  obtain @⟨n, behind, more, rfl, -, -, -⟩ := h
  obtain ⟨b, others, hn, hb⟩ := exists_digit_decimal n
  exact ⟨b, others ++ behind, by rw [hn, List.cons_append], hb⟩

end Passed

end RiscvSemantics.Json
