import RiscvSemantics.Proofs.Hart.Frame
import RiscvSemantics.Proofs.Widths.Determined

namespace RiscvSemantics

variable {σ ε : Type} {x : Xlen}

open Dialogue Interpretation

namespace Statement

/-- What statements ask and change at once: first all of them evaluate, in order, whatever
    indices, addresses, values and conditions they have, and only then are the changes made that
    they come to, in order. -/
def dialogueAtOnce (instruction : Instruction) (xlen : Nat) (hxlen : xlen ≤ 64)
    (statements : List (Statement ε)) : Dialogue ε Violation Unit := do
  let changes ← statements.mapM (preparation instruction xlen hxlen)
  forM changes conclude

/-- No statement reads what an earlier one may change, nor may it fault where an earlier one
    may raise a cause. -/
def HazardFree (statements : List (Statement ε)) : Prop :=
  statements.Pairwise fun earlier later => ∀ kind ∈ later.kinds, earlier.effect.disturbs kind = false

instance (statements : List (Statement ε)) : Decidable (HazardFree statements) :=
  inferInstanceAs (Decidable (statements.Pairwise _))

/-- On no hart does the statement break off. -/
def Executes (x : Xlen) (instruction : Instruction) (statement : Statement Cause) : Prop :=
  ∀ hart : Hart x, ∃ after, statement.execute instruction hart = (.ok (), after)

variable {instruction : Instruction} {statement : Statement Cause} {statements : List (Statement Cause)}

/-- A statement that does not break off comes to a change, if any, that can be made. -/
theorem Executes.prepared (hexecutes : Executes x instruction statement) (hart : Hart x) :
    ∃ change? mid after,
      (statement.preparation instruction x.bits x.bits_le).run hart = (.ok change?, mid) ∧
        (conclude change?).run mid = (.ok (), after) ∧ statement.execute instruction hart = (.ok (), after) := by
  obtain ⟨after, hexecute⟩ := hexecutes hart
  have hrun : ((statement.preparation instruction x.bits x.bits_le).run >>= fun change? =>
      (conclude change?).run) hart = (.ok (), after) := by
    rw [← hexecute, execute_eq_run, dialogue, run_bind]
    rfl
  obtain ⟨change?, mid, hprepare, hconclude⟩ := exists_of_bind_ok hrun
  exact ⟨change?, mid, after, hprepare, hconclude, hexecute⟩

theorem preparations_cons {rest : List (Statement Cause)} {change? : Option (Change Cause)}
    {changes : List (Option (Change Cause))} {hart mid after : Hart x}
    (hfirst : (statement.preparation instruction x.bits x.bits_le).run hart = (.ok change?, mid))
    (hrest : (rest.mapM (preparation instruction x.bits x.bits_le)).run mid = (.ok changes, after)) :
    ((statement :: rest).mapM (preparation instruction x.bits x.bits_le)).run hart =
      (.ok (change? :: changes), after) := by
  rw [List.mapM_cons, run_bind, bind_of_ok hfirst, run_bind, bind_of_ok hrest]
  rfl

theorem preparations_ok (hexecutes : ∀ statement ∈ statements, Executes x instruction statement) (hart : Hart x) :
    ∃ changes after, (statements.mapM (preparation instruction x.bits x.bits_le)).run hart =
      (.ok changes, after) := by
  induction statements generalizing hart with
  | nil => exact ⟨[], hart, rfl⟩
  | cons statement rest ih =>
    obtain ⟨hfirst, hrest⟩ := List.forall_mem_cons.mp hexecutes
    obtain ⟨change?, mid, -, hprepare, -⟩ := hfirst.prepared hart
    obtain ⟨changes, after, hchanges⟩ := ih hrest mid
    exact ⟨change? :: changes, after, preparations_cons hprepare hchanges⟩

theorem preparations_confined {reads : Read → Prop} (instruction : Instruction) (xlen : Nat)
    (hxlen : xlen ≤ 64) (statements : List (Statement ε))
    (hkinds : ∀ statement ∈ statements, ∀ kind ∈ statement.kinds, reads kind) :
    (statements.mapM (preparation instruction xlen hxlen)).Confined reads (fun _ => False) fun _ => True := by
  induction statements with
  | nil => exact confined_pure trivial
  | cons statement rest ih =>
    obtain ⟨hfirst, hrest⟩ := List.forall_mem_cons.mp hkinds
    rw [List.mapM_cons]
    refine (statement.preparation_confined _ _ _ hfirst).bind fun change? _ => ?_
    exact (ih hrest).bind fun changes _ => confined_pure trivial

theorem conclude_answer (change? : Option (Change Cause)) (a b : Hart x) :
    ((conclude change?).run a).1 = ((conclude change?).run b).1 := by
  cases change? with
  | none => rfl
  | some c =>
    rw [conclude, run_change, act_apply, act_apply, Hart.make_answer a b]

/-- Without a hazard it makes no difference whether statements are executed one after the other
    or at once. -/
theorem executeAll_eq_atOnce (hfree : HazardFree statements)
    (hexecutes : ∀ statement ∈ statements, Executes x instruction statement) (hart : Hart x) :
    executeAll instruction statements hart =
      (dialogueAtOnce instruction x.bits x.bits_le statements).run hart := by
  induction statements generalizing hart with
  | nil => rfl
  | cons statement rest ih =>
    obtain ⟨hlater, hrestfree⟩ := List.pairwise_cons.mp hfree
    obtain ⟨hfirst, hrest⟩ := List.forall_mem_cons.mp hexecutes
    obtain ⟨change?, mid, after, hprepare, hconclude, hexecute⟩ := hfirst.prepared hart
    obtain ⟨changes, last, hchanges⟩ := preparations_ok hrest mid
    have hprepares : (statement.preparation instruction x.bits x.bits_le).Confined (fun _ => True)
        (fun _ => False) fun change? => ∀ c ∈ change?, c.effect = statement.effect :=
      statement.preparation_confined _ _ _ fun _ _ => trivial
    have heffect := hprepares.result_of_ok hprepare
    -- The later statements evaluate the same before the change of the first one as after it.
    have hcommute : (rest.mapM (preparation instruction x.bits x.bits_le)).run after =
        (.ok changes, ((conclude change?).run last).2) := by
      have hundisturbed := preparations_confined instruction x.bits x.bits_le rest hlater
      have hrun := Confined.run_after_conclude (fun c hc => heffect c hc ▸ hundisturbed) mid
      rwa [hconclude, hchanges] at hrun
    have hlast : (conclude change?).run last = (.ok (), ((conclude change?).run last).2) := by
      have hanswer := conclude_answer change? last mid
      rw [hconclude] at hanswer
      exact Prod.ext hanswer rfl
    calc
      executeAll instruction (statement :: rest) hart = executeAll instruction rest after :=
        bind_of_ok hexecute _
      _ = (dialogueAtOnce instruction x.bits x.bits_le rest).run after := ih hrestfree hrest after
      _ = (forM changes conclude).run ((conclude change?).run last).2 := by
        rw [dialogueAtOnce, run_bind, bind_of_ok hcommute]
      _ = (forM (change? :: changes) conclude).run last := by
        rw [List.forM_cons, run_bind, bind_of_ok hlast]
      _ = (dialogueAtOnce instruction x.bits x.bits_le (statement :: rest)).run hart := by
        rw [dialogueAtOnce, run_bind, bind_of_ok (preparations_cons hprepare hchanges)]

/-- Statements that are forecast to go through do so on every hart. -/
theorem executes_of_firstViolation
    (hsound : firstViolation (instruction.frame x.bits ⟨x.bits, x.bits, Violation.cellBits⟩) statements = none) :
    ∀ statement ∈ statements, Executes x instruction statement := by
  induction statements with
  | nil => exact fun _ hmem => absurd hmem List.not_mem_nil
  | cons statement rest ih =>
    rw [firstViolation] at hsound
    cases houtcome : (statement.forecast
        (instruction.frame x.bits ⟨x.bits, x.bits, Violation.cellBits⟩)).outcome with
    | error violation =>
      rw [houtcome] at hsound
      cases hsound
    | ok u =>
      rw [houtcome] at hsound
      refine List.forall_mem_cons.mpr ⟨fun hart => ?_, ih (Option.map_eq_none_iff.mp hsound)⟩
      obtain ⟨after, hexecute, _⟩ := execute_foreseen (Hart.serves x) instruction statement (s := hart) trivial
      exact ⟨after, hexecute.trans (congrArg (fun outcome => (outcome.mapError Stop.error, after)) houtcome)⟩

end Statement

/-- Executes a formula at once: what its statements evaluate is all read from the machine as it
    was before the instruction. -/
def Formula.executeAtOnce [Machine σ ε] (instruction : Instruction) (formula : Formula ε) :
    Interpretation σ Violation Unit :=
  (Statement.dialogueAtOnce instruction (Machine.xlen σ) Machine.xlen_le formula.statements).run

/-- A formula without hazards that fits its instruction does on every hart what it does at
    once. -/
theorem Formula.execute_eq_atOnce {formula : Formula Cause} {instruction : Instruction}
    (hfree : Statement.HazardFree formula.statements)
    (hsound : Statement.firstViolation (instruction.frame x.bits ⟨x.bits, x.bits, Violation.cellBits⟩)
      formula.statements = none) (hart : Hart x) :
    ∃ after, formula.execute instruction hart = (.ok (), after) ∧
      formula.executeAtOnce instruction hart = (.ok (), after) := by
  have hforeseen :=
    Formula.execute_foreseen (Hart.serves x) instruction formula.statements (s := hart) trivial
  have hnone : Statement.firstViolation (instruction.frame (Machine.xlen (Hart x))
      ⟨x.bits, x.bits, Violation.cellBits⟩) formula.statements = none := hsound
  rw [hnone] at hforeseen
  obtain ⟨after, hexecute, _⟩ := hforeseen
  have hatOnce := Statement.executeAll_eq_atOnce hfree (Statement.executes_of_firstViolation hsound) hart
  exact ⟨after, hexecute, hatOnce.symm.trans hexecute⟩

end RiscvSemantics
