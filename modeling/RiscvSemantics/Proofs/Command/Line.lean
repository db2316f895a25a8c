import RiscvSemantics.Command.Job
import RiscvSemantics.Proofs.Text.Numeral

namespace RiscvSemantics.Command

/-- A text that stays on its line when it is printed. -/
def OneLine (s : String) : Prop :=
  ∀ c ∈ s.toList, c ≠ '\n' ∧ c ≠ '\r'

instance : DecidablePred OneLine := fun s =>
  List.decidableBAll (fun c => c ≠ '\n' ∧ c ≠ '\r') s.toList

theorem OneLine.append {s t : String} (hs : OneLine s) (ht : OneLine t) : OneLine (s ++ t) := by
  intro c hc
  rw [String.toList_append, List.mem_append] at hc
  exact hc.elim (hs c) (ht c)

/-- Digits are no ends of lines. -/
theorem oneLine_digits {base : Nat} {spell : Char → Char} (hspell : Text.Spells base spell) (hbase : 1 < base)
    (places n : Nat) : OneLine (String.ofList ((Text.digits base places n).map spell)) := by
  intro c hc
  rw [String.toList_ofList] at hc
  obtain ⟨digit, hdigit, rfl⟩ := List.mem_map.mp hc
  obtain ⟨d, hd, rfl⟩ := Text.exists_of_mem_digits hbase hdigit
  have hvalue := hspell d hd
  constructor
  all_goals
    intro heq
    rw [heq] at hvalue
    cases hvalue

theorem oneLine_decimal (n : Nat) : OneLine (toString n) := by
  have hdigits := oneLine_digits Text.spells_decimal (by decide) 1 n
  rwa [List.map_id, Text.digits_one, ← Nat.toString_eq_ofList_toDigits] at hdigits

theorem oneLine_word (n : Nat) : OneLine (Text.word n) := by
  have hmark : OneLine "0x" := by decide
  have hdigits := oneLine_digits Text.spells_hexLower (by decide) 8 n
  rw [List.map_id] at hdigits
  exact hmark.append hdigits

theorem oneLine_display (cause : Cause) : OneLine cause.display := by
  cases cause <;> decide

theorem oneLine_endLine (steps : Nat) (halt pending : Option Cause) : OneLine (endLine steps halt pending) := by
  have hhalted : OneLine "halted: " := by decide
  have hran : OneLine "ran " := by decide
  have hsteps : OneLine " steps" := by decide
  have hthen : OneLine " steps, then: " := by decide
  cases halt with
  | some cause => exact hhalted.append (oneLine_display cause)
  | none =>
    cases pending with
    | some cause => exact ((hran.append (oneLine_decimal steps)).append hthen).append (oneLine_display cause)
    | none => exact (hran.append (oneLine_decimal steps)).append hsteps

section Lines

variable {line : String} {lines : List String}

theorem withoutReturn_of_oneLine (hline : OneLine line) : withoutReturn line.toList = line := by
  have hlast : line.toList.getLast? ≠ some '\r' := fun heq => (hline _ (List.mem_of_getLast? heq)).2 rfl
  rw [withoutReturn, if_neg hlast, String.ofList_toList]

/-- A line is read from its end on. -/
theorem foldr_of_oneLine {cs : List Char} (hcs : '\n' ∉ cs) (current : List Char) (lines : List String) :
    cs.foldr (fun c (current, lines) =>
      if c = '\n' then ([], withoutReturn current :: lines) else (c :: current, lines)) (current, lines) =
        (cs ++ current, lines) := by
  induction cs with
  | nil => rfl
  | cons c rest ih =>
    obtain ⟨hc, hrest⟩ := List.ne_and_not_mem_of_not_mem_cons hcs
    rw [List.foldr_cons, ih hrest, List.cons_append]
    exact if_neg hc.symm

/-- The first line of a text. -/
theorem textLines_cons (hline : OneLine line) (rest : String) :
    textLines (line ++ "\n" ++ rest) = line :: textLines rest := by
  have hnewline : '\n' ∉ line.toList := fun hmem => (hline _ hmem).1 rfl
  have hbreak : "\n".toList = ['\n'] := rfl
  rw [textLines, textLines, String.toList_append, String.toList_append, List.foldr_append, List.foldr_append,
    hbreak, List.foldr_cons, List.foldr_nil]
  generalize List.foldr _ ([], []) rest.toList = read
  obtain ⟨last, before⟩ := read
  dsimp only
  rw [if_pos rfl, foldr_of_oneLine hnewline, List.append_nil, withoutReturn_of_oneLine hline]

/-- What is printed line by line is read line by line, and nothing follows the last end of a line. -/
theorem textLines_unlines (hlines : ∀ line ∈ lines, OneLine line) :
    textLines (unlines lines) = lines ++ [""] := by
  induction lines with
  | nil => rfl
  | cons line rest ih =>
    obtain ⟨hline, hrest⟩ := List.forall_mem_cons.mp hlines
    have hjoin : unlines (line :: rest) = line ++ "\n" ++ unlines rest := by
      rw [unlines, List.map_cons, String.join_cons]
      rfl
    rw [hjoin, textLines_cons hline, ih hrest, List.cons_append]

end Lines

end RiscvSemantics.Command
