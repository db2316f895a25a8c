import RiscvSemantics.Proofs.Record.Gained

namespace RiscvSemantics

variable {σ ε : Type} [Machine σ ε]

/-- What the expressions of a statement evaluate to, in order, from one state to another, and the
    change that it makes of that. A cause is raised only where the condition is 1. -/
inductive Statement.ComesTo (instruction : Instruction) (before : Recorded σ ε) :
    Statement ε → Option (Change ε) → Recorded σ ε → Prop where
  | register {id value : Expr} {index v : Bits} {mid after : Recorded σ ε}
      (hid : id.eval instruction before = (.ok index, mid))
      (hvalue : value.eval instruction mid = (.ok v, after)) :
      ComesTo instruction before (.setRegister id value) (some (.register index v)) after
  | memory {address value : Expr} {location v : Bits} {mid after : Recorded σ ε}
      (haddress : address.eval instruction before = (.ok location, mid))
      (hvalue : value.eval instruction mid = (.ok v, after)) :
      ComesTo instruction before (.setMemory address value) (some (.memory location v)) after
  | pc {value : Expr} {v : Bits} {after : Recorded σ ε}
      (hvalue : value.eval instruction before = (.ok v, after)) :
      ComesTo instruction before (.setPc value) (some (.pc v)) after
  | raise {condition : Expr} {cause : ε} {c : Bits} {after : Recorded σ ε}
      (hcondition : condition.eval instruction before = (.ok c, after)) (hone : c.toNat = 1) :
      ComesTo instruction before (.raiseIf condition cause) (some (.raise cause)) after
  | skip {condition : Expr} {cause : ε} {c : Bits} {after : Recorded σ ε}
      (hcondition : condition.eval instruction before = (.ok c, after)) (hother : c.toNat ≠ 1) :
      ComesTo instruction before (.raiseIf condition cause) none after

/-- A statement reads, and then makes the one change that it comes to, if any. If it breaks off
    with a violation it has only read. If the machine faults, that was either at a read or at the
    change. -/
def Statement.ChangesLast (instruction : Instruction) (statement : Statement ε) (before : Recorded σ ε) :
    Prop :=
  ∃ reads asked, OnlyReads reads ∧ before.Gained reads asked ∧
    match statement.execute instruction before with
    | (.ok (), after) =>
      ∃ change?, statement.ComesTo instruction before change? asked ∧
        asked.Gained (change?.toList.map Change.access) after
    | (.error (.error _), after) => after = asked
    | (.error (.fault _), after) =>
      after = asked ∨
        ∃ c, statement.ComesTo instruction before (some c) asked ∧ asked.Gained [c.access] after

namespace Statement

open Dialogue Interpretation

variable {instruction : Instruction} {statement : Statement ε} {before asked : Recorded σ ε}
  {change? : Option (Change ε)}

/-- What a statement prepares is what it comes to. -/
theorem comesTo_of_preparation
    (hprepare : (statement.preparation instruction (Machine.xlen (Recorded σ ε)) Machine.xlen_le).run before =
      (.ok change?, asked)) : statement.ComesTo instruction before change? asked := by
  cases statement with
  | setRegister id value =>
    simp only [preparation, run_bind, run_checked, run_pure, ← Expr.eval_eq_run] at hprepare
    obtain ⟨index, mid, hid, hprepare⟩ := exists_of_bind_ok hprepare
    obtain ⟨-, -, hprepare⟩ := exists_of_checked_bind_ok hprepare
    obtain ⟨v, after, hvalue, hprepare⟩ := exists_of_bind_ok hprepare
    obtain ⟨-, -, hprepare⟩ := exists_of_checked_bind_ok hprepare
    cases hprepare
    exact .register hid hvalue
  | setMemory address value =>
    simp only [preparation, run_bind, run_checked, run_pure, ← Expr.eval_eq_run] at hprepare
    obtain ⟨location, mid, haddress, hprepare⟩ := exists_of_bind_ok hprepare
    obtain ⟨-, -, hprepare⟩ := exists_of_checked_bind_ok hprepare
    obtain ⟨v, after, hvalue, hprepare⟩ := exists_of_bind_ok hprepare
    obtain ⟨-, -, hprepare⟩ := exists_of_checked_bind_ok hprepare
    cases hprepare
    exact .memory haddress hvalue
  | setPc value =>
    simp only [preparation, run_bind, run_checked, run_pure, ← Expr.eval_eq_run] at hprepare
    obtain ⟨v, after, hvalue, hprepare⟩ := exists_of_bind_ok hprepare
    obtain ⟨-, -, hprepare⟩ := exists_of_checked_bind_ok hprepare
    cases hprepare
    exact .pc hvalue
  | raiseIf condition cause =>
    simp only [preparation, run_bind, run_pure, ← Expr.eval_eq_run] at hprepare
    obtain ⟨c, after, hcondition, hprepare⟩ := exists_of_bind_ok hprepare
    by_cases hone : c.toNat = 1
    · rw [if_pos hone] at hprepare
      cases hprepare
      exact .raise hcondition hone
    · rw [if_neg hone] at hprepare
      cases hprepare
      exact .skip hcondition hone

theorem changesLast (instruction : Instruction) (statement : Statement ε) (before : Recorded σ ε) :
    statement.ChangesLast instruction before := by
  have hconfined : (statement.preparation instruction (Machine.xlen (Recorded σ ε)) Machine.xlen_le).Confined
      (fun _ => True) (fun _ => False) fun change? => ∀ c ∈ change?, c.effect = statement.effect :=
    statement.preparation_confined instruction _ _ fun _ _ => trivial
  obtain ⟨reads, hreads, hgained⟩ := hconfined.gained_reads before
  refine ⟨reads, _, hreads, hgained, ?_⟩
  rw [execute_eq_run, dialogue, run_bind]
  cases hprepare : (statement.preparation instruction (Machine.xlen (Recorded σ ε)) Machine.xlen_le).run
      before with
  | mk answer asked =>
    cases answer with
    | error stop =>
      rw [bind_of_error hprepare]
      cases stop with
      | fault fault => exact .inl rfl
      | error violation => rfl
    | ok change? =>
      have hcomes := comesTo_of_preparation hprepare
      rw [bind_of_ok hprepare]
      cases change? with
      | none => exact ⟨none, hcomes, asked.gained_nil⟩
      | some c =>
        rw [conclude, run_change]
        cases hmake : (c.make : Action (Recorded σ ε) Unit) asked with
        | mk answer after =>
          have hentry := Recorded.gained_of_make hmake
          cases answer with
          | ok u =>
            rw [act_of_ok hmake]
            exact ⟨some c, hcomes, hentry⟩
          | error fault =>
            rw [act_of_error hmake]
            exact .inr ⟨c, hcomes, hentry⟩

end Statement

end RiscvSemantics
