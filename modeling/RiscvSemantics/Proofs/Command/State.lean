import RiscvSemantics.Proofs.Command.Line

namespace RiscvSemantics.Command

/-- Reads a line about a value: its name up to the first space and, behind an equals sign, the value in base 16
    with its mark. -/
def readValue? (line : String) : Option (String × Nat) :=
  match line.toList.dropWhile (· != '=') with
  | '=' :: ' ' :: '0' :: 'x' :: digits =>
    match Text.readNumeral 16 UInt32.size digits with
    | .ok n => some (String.ofList (line.toList.takeWhile (· != ' ')), n)
    | .error _ => none
  | _ => none

/-- Lines from which the state of a hart can be read: its program counter, then those of its registers that are
    not zero, from the lowest number on. -/
inductive ShowsState (lines : List String) (hart : Hart .rv32) : Prop where
  | intro {shown : List (Fin 32)} (hordered : shown.Pairwise (· < ·))
      (hshown : ∀ i, i ∈ shown ↔ i ≠ 0 ∧ hart.register i ≠ 0)
      (hread : lines.map readValue? = some ("pc", hart.pc.toNat) ::
        shown.map fun i => some (registerName i, (hart.register i).toNat)) : ShowsState lines hart

/-- A name that ends where the line about its value goes on. -/
def Separated (name : String) : Prop :=
  ∀ c ∈ name.toList, c ≠ ' ' ∧ c ≠ '=' ∧ c ≠ '\n' ∧ c ≠ '\r'

instance : DecidablePred Separated := fun name =>
  List.decidableBAll (fun c => c ≠ ' ' ∧ c ≠ '=' ∧ c ≠ '\n' ∧ c ≠ '\r') name.toList

theorem separated_pc : Separated "pc" := by decide

theorem separated_registerName : ∀ i, Separated (registerName i) := by decide

section ValueLine

variable {name : String} (width : Nat) (value : BitVec 32)

theorem toList_valueLine (name : String) :
    (valueLine width name value).toList = name.toList ++
      ' ' :: (List.replicate (width - name.length) ' ' ++ '=' :: ' ' :: (Text.word value.toNat).toList) := by
  have hpadding (rest : List Char) : List.replicate (width - name.length) ' ' ++ ' ' :: rest =
      ' ' :: (List.replicate (width - name.length) ' ' ++ rest) := by
    rw [List.append_cons, ← List.replicate_succ', List.replicate_succ, List.cons_append]
  change (name ++ String.ofList (List.replicate (width - name.length) ' ') ++ " = " ++
    Text.word value.toNat).toList = _
  simp only [String.toList_append, String.toList_ofList, List.append_assoc]
  exact congrArg (name.toList ++ ·) (hpadding _)

theorem readValue?_valueLine (hname : Separated name) :
    readValue? (valueLine width name value) = some (name, value.toNat) := by
  have hspace : ∀ c ∈ name.toList, (c != ' ') = true := fun c hc => bne_iff_ne.mpr (hname c hc).1
  have hequals : ∀ c ∈ name.toList, (c != '=') = true := fun c hc => bne_iff_ne.mpr (hname c hc).2.1
  have hpadding : ∀ c ∈ List.replicate (width - name.length) ' ', (c != '=') = true := by
    intro c hc
    rw [(List.mem_replicate.mp hc).2]
    rfl
  have hword : (Text.word value.toNat).toList = '0' :: 'x' :: Text.digits 16 8 value.toNat := by
    rw [Text.word, Text.marked, Text.hex, String.toList_append, String.toList_ofList, String.toList_ofList]
    rfl
  have hvalue : Text.readNumeral 16 UInt32.size ((Text.digits 16 8 value.toNat).map id) = .ok value.toNat :=
    Text.readNumeral_digits Text.spells_hexLower (by decide) value.isLt
  rw [List.map_id] at hvalue
  rw [readValue?, toList_valueLine, List.dropWhile_append_of_pos hequals, List.dropWhile_cons_of_pos rfl,
    List.dropWhile_append_of_pos hpadding, List.dropWhile_cons_of_neg (by decide), hword]
  simp only [hvalue]
  rw [List.takeWhile_append_of_pos hspace, List.takeWhile_cons_of_neg (by decide), List.append_nil,
    String.ofList_toList]

theorem oneLine_valueLine (hname : Separated name) : OneLine (valueLine width name value) := by
  have hstart : OneLine name := fun c hc => (hname c hc).2.2
  have hpadding : OneLine (String.ofList (List.replicate (width - name.length) ' ')) := by
    intro c hc
    rw [String.toList_ofList] at hc
    rw [(List.mem_replicate.mp hc).2]
    decide
  have hequals : OneLine " = " := by decide
  exact ((hstart.append hpadding).append hequals).append (oneLine_word _)

end ValueLine

variable (hart : Hart .rv32)

theorem showsState_registerLines : ShowsState (registerLines hart) hart := by
  have hzero : hart.register 0 = 0 := rfl
  let shown := (List.finRange 32).filter fun i => hart.register i ≠ 0
  refine @ShowsState.intro _ _ shown ?hordered ?hshown ?hread
  case hordered => exact (List.pairwise_lt_finRange 32).filter _
  case hshown =>
    intro i
    rw [List.mem_filter, decide_eq_true_eq]
    constructor
    · rintro ⟨-, hne⟩
      exact ⟨fun heq => hne (heq ▸ hzero), hne⟩
    · exact fun hi => ⟨List.mem_finRange i, hi.2⟩
  case hread =>
    rw [registerLines, List.map_cons, readValue?_valueLine 2 hart.pc separated_pc, List.map_map]
    refine congrArg (some ("pc", hart.pc.toNat) :: ·) (List.map_congr_left fun i _ => ?_)
    exact readValue?_valueLine 3 (hart.register i) (separated_registerName i)

theorem oneLine_of_mem_registerLines : ∀ line ∈ registerLines hart, OneLine line := by
  intro line hline
  obtain rfl | hregister := List.mem_cons.mp hline
  · exact oneLine_valueLine 2 hart.pc separated_pc
  · obtain ⟨i, -, rfl⟩ := List.mem_map.mp hregister
    exact oneLine_valueLine 3 (hart.register i) (separated_registerName i)

end RiscvSemantics.Command
