import Mathlib.Data.List.TakeDrop
import Mathlib.Data.List.TakeWhile
import RiscvSemantics.Json.Scan

namespace RiscvSemantics.Json

variable {α β : Type} {text rest : List UInt8}

/-- A reader takes something off the front of a text, gives what it is, and leaves the rest. -/
def Reads (r : Reader α) (text : List UInt8) (a : α) (rest : List UInt8) : Prop :=
  r.run text = .ok (a, rest)

/-- White space, as much as one likes, in front of the rest. -/
def Spaces (text rest : List UInt8) : Prop :=
  ∃ gap : List UInt8, text = gap ++ rest ∧ ∀ b ∈ gap, isSpace b

/-- The rest does not go on with a digit. -/
def NoDigit (rest : List UInt8) : Prop :=
  ∀ b, rest.head? = some b → isDigit b = false

/-- A run of digits, to its end. -/
structure Digits (text digits rest : List UInt8) : Prop where
  text_eq : text = digits ++ rest
  digits : ∀ b ∈ digits, isDigit b
  ends : NoDigit rest

theorem Spaces.refl (text : List UInt8) : Spaces text text :=
  ⟨[], rfl, nofun⟩

theorem Spaces.trans {middle : List UInt8} (h : Spaces text middle) (h' : Spaces middle rest) :
    Spaces text rest := by
  obtain ⟨gap, rfl, hgap⟩ := h
  obtain ⟨gap', rfl, hgap'⟩ := h'
  refine ⟨gap ++ gap', (List.append_assoc ..).symm, fun b hb => ?_⟩
  exact (List.mem_append.mp hb).elim (hgap b) (hgap' b)

theorem Spaces.length_le (h : Spaces text rest) : rest.length ≤ text.length := by
  obtain ⟨gap, rfl, -⟩ := h
  rw [List.length_append]
  omega

theorem bind_eq_ok_iff {x : Except Error α} {f : α → Except Error β} {b : β} :
    x >>= f = .ok b ↔ ∃ a, x = .ok a ∧ f a = .ok b := by
  cases x with
  | error e => exact ⟨nofun, nofun⟩
  | ok a =>
    constructor
    · intro h
      exact ⟨a, rfl, h⟩
    · rintro ⟨_, ⟨⟩, h⟩
      exact h

section Steps

variable {a b : α} {c : β}

@[simp] theorem reads_bind {r : Reader α} {f : α → Reader β} :
    Reads (r >>= f) text c rest ↔ ∃ a middle, Reads r text a middle ∧ Reads (f a) middle c rest := by
  unfold Reads
  rw [StateT.run_bind]
  cases r.run text with
  | error e => exact ⟨nofun, nofun⟩
  | ok p =>
    constructor
    · intro h
      exact ⟨p.1, p.2, rfl, h⟩
    · rintro ⟨_, _, ⟨⟩, h⟩
      exact h

@[simp 1050] theorem reads_bind_unit {r : Reader Unit} {f : Unit → Reader β} :
    Reads (r >>= f) text c rest ↔ ∃ middle, Reads r text () middle ∧ Reads (f ()) middle c rest :=
  reads_bind.trans ⟨fun ⟨_, h⟩ => h, fun h => ⟨(), h⟩⟩

@[simp] theorem reads_pure : Reads (pure a) text b rest ↔ a = b ∧ text = rest := by
  constructor
  · rintro ⟨⟩
    exact ⟨rfl, rfl⟩
  · rintro ⟨rfl, rfl⟩
    rfl

@[simp] theorem reads_map {r : Reader α} {f : α → β} :
    Reads (f <$> r) text c rest ↔ ∃ a, Reads r text a rest ∧ f a = c := by
  rw [map_eq_pure_bind, reads_bind]
  constructor
  · rintro ⟨a, middle, hr, h⟩
    obtain ⟨hc, rfl⟩ := reads_pure.mp h
    exact ⟨a, hr, hc⟩
  · rintro ⟨a, hr, hc⟩
    exact ⟨a, rest, hr, reads_pure.mpr ⟨hc, rfl⟩⟩

@[simp] theorem reads_throw {e : Error} : ¬ Reads (throw e : Reader α) text a rest :=
  nofun

@[simp] theorem reads_ite {condition : Prop} [Decidable condition] {r s : Reader α} :
    Reads (if condition then r else s) text a rest ↔
      if condition then Reads r text a rest else Reads s text a rest := by
  split
  · rfl
  · rfl

@[simp] theorem reads_get {s : List UInt8} : Reads get text s rest ↔ text = s ∧ text = rest := by
  constructor
  · rintro ⟨⟩
    exact ⟨rfl, rfl⟩
  · rintro ⟨rfl, rfl⟩
    rfl

@[simp] theorem reads_set {s : List UInt8} {u : Unit} : Reads (set s : Reader Unit) text u rest ↔ s = rest := by
  constructor
  · rintro ⟨⟩
    rfl
  · rintro rfl
    rfl

@[simp] theorem reads_lift {x : Except Error α} :
    Reads (x : Reader α) text a rest ↔ x = .ok a ∧ text = rest := by
  cases x with
  | error e => exact ⟨nofun, nofun⟩
  | ok b =>
    constructor
    · rintro ⟨⟩
      exact ⟨rfl, rfl⟩
    · rintro ⟨⟨⟩, rfl⟩
      rfl

@[simp] theorem reads_peek {b : Option UInt8} : Reads peek text b rest ↔ text.head? = b ∧ text = rest := by
  constructor
  · rintro ⟨⟩
    exact ⟨rfl, rfl⟩
  · rintro ⟨rfl, rfl⟩
    rfl

@[simp] theorem reads_advance {u : Unit} : Reads advance text u rest ↔ text.tail = rest := by
  constructor
  · rintro ⟨⟩
    rfl
  · rintro rfl
    rfl

theorem reads_advance_bind {first : UInt8} {f : Unit → Reader β} :
    Reads (advance >>= f) (first :: text) c rest ↔ Reads (f ()) text c rest := by
  simp

end Steps

section Tokens

theorem dropWhile_eq_iff {p : UInt8 → Bool} :
    text.dropWhile p = rest ↔
      (∃ gap, text = gap ++ rest ∧ ∀ b ∈ gap, p b = true) ∧ ∀ b, rest.head? = some b → p b = false := by
  constructor
  · rintro rfl
    refine ⟨⟨text.takeWhile p, List.takeWhile_append_dropWhile.symm, fun b => List.mem_takeWhile_imp⟩, ?_⟩
    intro b hb
    have hfirst := List.head?_dropWhile_not p text
    rw [hb] at hfirst
    simpa using hfirst
  · rintro ⟨⟨gap, rfl, hgap⟩, hrest⟩
    rw [List.dropWhile_append_of_pos hgap]
    cases rest with
    | nil => rfl
    | cons b others => rw [List.dropWhile_cons_of_neg (by simp [hrest b rfl])]

theorem reads_peekToken {next : Option UInt8} :
    Reads peekToken text next rest ↔ text.dropWhile isSpace = rest ∧ rest.head? = next := by
  constructor
  · rintro ⟨⟩
    exact ⟨rfl, rfl⟩
  · rintro ⟨rfl, rfl⟩
    rfl

/-- What stands behind white space is no white space itself. -/
theorem reads_requireToken {b : UInt8} :
    Reads requireToken text b rest ↔ Spaces text rest ∧ rest.head? = some b ∧ isSpace b = false := by
  rw [requireToken, reads_bind]
  constructor
  · rintro ⟨next, middle, htoken, hnext⟩
    obtain ⟨hdrop, rfl⟩ := reads_peekToken.mp htoken
    obtain ⟨hspaces, hfirst⟩ := dropWhile_eq_iff.mp hdrop
    cases hhead : middle.head? with
    | none =>
      rw [hhead] at hnext
      exact absurd hnext reads_throw
    | some b' =>
      rw [hhead] at hnext
      obtain ⟨rfl, rfl⟩ := reads_pure.mp hnext
      exact ⟨hspaces, hhead, hfirst b' hhead⟩
  · rintro ⟨hspaces, hhead, hb⟩
    have hdrop : text.dropWhile isSpace = rest := by
      refine dropWhile_eq_iff.mpr ⟨hspaces, fun b' hb' => ?_⟩
      rw [hhead] at hb'
      cases hb'
      exact hb
    refine ⟨some b, rest, reads_peekToken.mpr ⟨hdrop, hhead⟩, ?_⟩
    exact reads_pure.mpr ⟨rfl, rfl⟩

@[simp 1100] theorem reads_requireToken_bind {f : UInt8 → Reader α} {a : α} :
    Reads (requireToken >>= f) text a rest ↔
      ∃ b behind, Spaces text (b :: behind) ∧ isSpace b = false ∧ Reads (f b) (b :: behind) a rest := by
  rw [reads_bind]
  constructor
  · rintro ⟨b, token, htoken, h⟩
    obtain ⟨hspaces, hhead, hb⟩ := reads_requireToken.mp htoken
    obtain ⟨behind, rfl⟩ := List.head?_eq_some_iff.mp hhead
    exact ⟨b, behind, hspaces, hb, h⟩
  · rintro ⟨b, behind, hspaces, hb, h⟩
    exact ⟨b, b :: behind, reads_requireToken.mpr ⟨hspaces, rfl, hb⟩, h⟩

@[simp] theorem reads_takeDigits {digits : List UInt8} :
    Reads takeDigits text digits rest ↔ Digits text digits rest := by
  have hspan : Reads takeDigits text digits rest ↔
      text.takeWhile isDigit = digits ∧ text.dropWhile isDigit = rest := by
    unfold Reads takeDigits
    rw [show ((modifyGet (·.span isDigit) : Reader (List UInt8)).run text) = .ok (text.span isDigit) from rfl,
      List.span_eq_takeWhile_dropWhile, Except.ok.injEq, Prod.mk.injEq]
  rw [hspan]
  constructor
  · rintro ⟨rfl, hdrop⟩
    obtain ⟨-, hends⟩ := dropWhile_eq_iff.mp hdrop
    refine ⟨?_, fun b => List.mem_takeWhile_imp, hends⟩
    rw [← hdrop, List.takeWhile_append_dropWhile]
  · rintro ⟨rfl, hdigits, hends⟩
    have hdrop : (digits ++ rest).dropWhile isDigit = rest :=
      dropWhile_eq_iff.mpr ⟨⟨digits, rfl, hdigits⟩, hends⟩
    refine ⟨?_, hdrop⟩
    have hsplit := List.takeWhile_append_dropWhile (p := isDigit) (l := digits ++ rest)
    rw [hdrop] at hsplit
    exact List.append_cancel_right hsplit

@[simp] theorem reads_expect {word : List Char} {u : Unit} :
    Reads (expect word) text u rest ↔ text = word.map Char.toUInt8 ++ rest := by
  induction word generalizing text with
  | nil =>
    rw [expect, reads_pure]
    exact and_iff_right rfl
  | cons c word ih =>
    cases text with
    | nil =>
      refine iff_of_false ?_ ?_
      · rintro ⟨⟩
      · rintro ⟨⟩
    | cons b text =>
      have hstep : Reads (expect (c :: word)) (b :: text) u rest ↔
          b = c.toUInt8 ∧ Reads (expect word) text u rest := by
        have hexpect : (expect (c :: word)).run (b :: text) =
            (if b == c.toUInt8 then expect word else throw .malformed).run text := rfl
        rw [Reads, hexpect, ← Reads, reads_ite]
        simp
      rw [hstep, ih, List.map_cons, List.cons_append, List.cons.injEq]

end Tokens

end RiscvSemantics.Json
