import RiscvSemantics.Command.Job
import RiscvSemantics.Proofs.Run.Raised

namespace RiscvSemantics

/-- The cause that a text starts with the name of. -/
def Cause.ofDisplay? (text : String) : Option Cause :=
  ofName? (String.ofList (text.toList.takeWhile (· != ' ')))

theorem Cause.ofDisplay?_display (cause : Cause) : ofDisplay? cause.display = some cause := by
  cases cause <;> decide

theorem Cause.display_inj {cause other : Cause} : cause.display = other.display ↔ cause = other := by
  constructor
  · intro hsame
    have hread := ofDisplay?_display cause
    rw [hsame, ofDisplay?_display] at hread
    exact (Option.some.inj hread).symm
  · exact congrArg display

namespace Command

variable {steps : Nat} {halt pending : Option Cause} {cause : Cause}

section Texts

variable (steps : Nat) (pending : Option Cause) (cause : Cause)

theorem endLine_halted : endLine steps (some cause) pending = "halted: " ++ cause.display := rfl

theorem endLine_raised :
    endLine steps none (some cause) = "ran " ++ toString steps ++ " steps, then: " ++ cause.display := rfl

theorem endLine_ran : endLine steps none none = "ran " ++ toString steps ++ " steps" := rfl

/-- The texts differ in their first letter. -/
theorem ran_ne_halted (text tail : String) : "ran " ++ toString steps ++ tail ≠ "halted: " ++ text := by
  intro hsame
  have hlists := congrArg String.toList hsame
  rw [String.toList_append, String.toList_append, String.toList_append] at hlists
  cases hlists

/-- One text goes on where the other ends. -/
theorem raised_ne_ran :
    "ran " ++ toString steps ++ " steps, then: " ++ cause.display ≠ "ran " ++ toString steps ++ " steps" := by
  intro hsame
  rw [String.append_assoc, String.append_right_inj] at hsame
  have hlength := congrArg String.length hsame
  rw [String.length_append] at hlength
  have hlong : " steps, then: ".length = 14 := rfl
  have hshort : " steps".length = 6 := rfl
  omega

end Texts

theorem endLine_eq_halted_iff :
    endLine steps halt pending = s!"halted: {cause.display}" ↔ halt = some cause := by
  change endLine steps halt pending = "halted: " ++ cause.display ↔ _
  cases halt with
  | some other => rw [endLine_halted, String.append_right_inj, Cause.display_inj, Option.some_inj]
  | none =>
    cases pending with
    | some other =>
      rw [endLine_raised, String.append_assoc]
      exact iff_of_false (ran_ne_halted _ _ _) nofun
    | none => exact iff_of_false (ran_ne_halted _ _ _) nofun

theorem endLine_eq_raised_iff :
    endLine steps halt pending = s!"ran {steps} steps, then: {cause.display}" ↔
      halt = none ∧ pending = some cause := by
  change endLine steps halt pending = "ran " ++ toString steps ++ " steps, then: " ++ cause.display ↔ _
  cases halt with
  | some other =>
    rw [endLine_halted, String.append_assoc]
    exact iff_of_false (ran_ne_halted _ _ _).symm (nofun ∘ And.left)
  | none =>
    cases pending with
    | some other =>
      rw [endLine_raised, String.append_right_inj, Cause.display_inj, Option.some_inj]
      exact (and_iff_right rfl).symm
    | none => exact iff_of_false (raised_ne_ran _ _).symm (nofun ∘ And.right)

theorem endLine_eq_ran_iff :
    endLine steps halt pending = s!"ran {steps} steps" ↔ halt = none ∧ pending = none := by
  change endLine steps halt pending = "ran " ++ toString steps ++ " steps" ↔ _
  cases halt with
  | some other => exact iff_of_false (ran_ne_halted _ _ _).symm (nofun ∘ And.left)
  | none =>
    cases pending with
    | some other => exact iff_of_false (raised_ne_ran _ _) (nofun ∘ And.right)
    | none => exact iff_of_true (endLine_ran steps) ⟨rfl, rfl⟩

/-- The last line tells how a run from `start` to `final` has ended: halted by what the last instruction raised
    while there was budget left, with that raised by the last instruction of the budget, or with the whole
    budget executed and nothing raised. -/
structure TellsEnd (steps : Nat) (start final : Hart .rv32) (last : String) : Prop where
  halted : ∀ cause, last = s!"halted: {cause.display}" ↔
    ∃ k, k + 1 < steps ∧ Rv32.catalog.Executed start (List.replicate k none ++ [some cause]) final
  raisedLast : ∀ cause, last = s!"ran {steps} steps, then: {cause.display}" ↔
    ∃ k, k + 1 = steps ∧ Rv32.catalog.Executed start (List.replicate k none ++ [some cause]) final
  quiet : last = s!"ran {steps} steps" ↔ Rv32.catalog.Executed start (List.replicate steps none) final

theorem tellsEnd_endLine {start final : Hart .rv32} (hpending : start.trap = none)
    (hrun : run Rv32.catalog steps start = (.ok halt, final)) :
    TellsEnd steps start final (endLine steps halt final.trap) where
  halted _ := endLine_eq_halted_iff.trans (halt_eq_some_iff hpending hrun)
  raisedLast _ := endLine_eq_raised_iff.trans (trap_eq_some_iff hpending hrun)
  quiet := endLine_eq_ran_iff.trans (trap_eq_none_iff hpending hrun)

end Command
end RiscvSemantics
