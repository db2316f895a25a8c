import RiscvSemantics.Proofs.Dialogue.Record
import RiscvSemantics.Proofs.Widths.Reads
import RiscvSemantics.Proofs.Widths.Static

namespace RiscvSemantics

variable {σ ε α β : Type}

namespace Machine.Serves

variable [Machine σ ε] {valid : σ → Prop} {frame : Frame} {view : α → β}
  {d : Dialogue ε Violation α} {forecast : Forecast β}

/-- Held with a machine that serves, a dialogue comes to what is forecast. -/
theorem run_keeps (hserves : Machine.Serves valid frame.widths) (hxlen : Machine.xlen σ = frame.xlen)
    (hkeeps : d.Keeps frame view forecast) {s : σ} (hvalid : valid s) :
    ∃ answer s', (d.run : Interpretation σ Violation α) s = (answer, s') ∧
      answer.map view = forecast.outcome.mapError Stop.error ∧ valid s' := by
  induction d generalizing s forecast with
  | done answer => exact ⟨answer, s, rfl, hkeeps.2, hvalid⟩
  | look next ih => exact ih _ _ (hkeeps _ _) hvalid
  | ask q next ih =>
    obtain ⟨hfits, later, _, hnext⟩ := hkeeps
    obtain ⟨value, s', hask, hwidth, hvalid'⟩ := hserves.ask hvalid (hxlen ▸ hfits)
    rw [Dialogue.run_ask hask]
    exact ih value (hnext value hwidth) hvalid'
  | make c next ih =>
    obtain ⟨s', hmake, hvalid'⟩ := hserves.make hvalid (hxlen ▸ hkeeps.1)
    rw [Dialogue.run_make hmake]
    exact ih hkeeps.2 hvalid'

/-- A record of the dialogue gains the reads that are forecast, in their order. -/
theorem run_reads (hserves : Machine.Serves valid frame.widths) (hxlen : Machine.xlen σ = frame.xlen)
    (hkeeps : d.Keeps frame view forecast) {s : σ} (hvalid : valid s) (record : Array (Access ε)) :
    ((d.run : Interpretation (Recorded σ ε) Violation α) ⟨s, record⟩).2.record.toList.filterMap Access.read? =
      record.toList.filterMap Access.read? ++ forecast.reads := by
  induction d generalizing s record forecast with
  | done answer => rw [hkeeps.1, List.append_nil]; rfl
  | look next ih => exact ih _ _ (hkeeps _ _) hvalid record
  | ask q next ih =>
    obtain ⟨hfits, later, hreads, hnext⟩ := hkeeps
    obtain ⟨value, s', hask, hwidth, hvalid'⟩ := hserves.ask hvalid (hxlen ▸ hfits)
    rw [Dialogue.run_ask (Recorded.ask_eq hask record), ih value (hnext value hwidth) hvalid',
      Array.toList_push, List.filterMap_append, hreads]
    simp
  | make c next ih =>
    obtain ⟨s', hmake, hvalid'⟩ := hserves.make hvalid (hxlen ▸ hkeeps.1)
    rw [Dialogue.run_make (Recorded.make_eq hmake record), ih hkeeps.2 hvalid',
      Array.toList_push, List.filterMap_append]
    simp

end Machine.Serves

section Foreseen

variable [Machine σ ε] {valid : σ → Prop} {widths : Machine.Widths}

/-- A formula breaks off at one of its statements with a violation: cut before that statement it is
    executed, the statement reports the violation, and with that the formula does. -/
def Formula.BreaksOff (instruction : Instruction) (formula : Formula ε) (s : σ) (k : Nat)
    (violation : Violation) : Prop :=
  ∃ statement before after, formula.statements[k]? = some statement ∧
    Formula.execute instruction ⟨formula.statements.take k⟩ s = (.ok (), before) ∧
    statement.execute instruction before = (.error (.error violation), after) ∧
    formula.execute instruction s = (.error (.error violation), after)

theorem Formula.execute_cons {instruction : Instruction} {statement : Statement ε} {s s' : σ}
    (hfirst : statement.execute instruction s = (.ok (), s')) (rest : List (Statement ε)) :
    Formula.execute instruction ⟨statement :: rest⟩ s = Formula.execute instruction ⟨rest⟩ s' :=
  Interpretation.bind_of_ok hfirst _

theorem Formula.BreaksOff.cons {instruction : Instruction} {statement : Statement ε}
    {rest : List (Statement ε)} {s s' : σ} {k : Nat} {violation : Violation}
    (hfirst : statement.execute instruction s = (.ok (), s'))
    (hrest : Formula.BreaksOff instruction ⟨rest⟩ s' k violation) :
    Formula.BreaksOff instruction ⟨statement :: rest⟩ s (k + 1) violation := by
  obtain ⟨failing, before, after, hat, hbefore, hfails, hall⟩ := hrest
  refine ⟨failing, before, after, hat, ?_, hfails, ?_⟩
  · rw [List.take_succ_cons, execute_cons hfirst, hbefore]
  · rw [execute_cons hfirst, hall]

theorem Statement.execute_foreseen (hserves : Machine.Serves valid widths) (instruction : Instruction)
    (statement : Statement ε) {s : σ} (hvalid : valid s) :
    ∃ s', statement.execute instruction s =
      ((statement.forecast (instruction.frame (Machine.xlen σ) widths)).outcome.mapError Stop.error, s') ∧
        valid s' := by
  have hkeeps := statement.dialogue_keeps instruction (Machine.xlen σ) Machine.xlen_le widths
  obtain ⟨answer, s', hrun, hanswer, hvalid'⟩ := hserves.run_keeps rfl hkeeps hvalid
  rw [Except.map_id] at hanswer
  exact ⟨s', by rw [execute_eq_run, hrun, ← hanswer]; rfl, hvalid'⟩

/-- A formula is executed, unless one of its statements is forecast to break off: then the
    first such one does. -/
theorem Formula.execute_foreseen (hserves : Machine.Serves valid widths) (instruction : Instruction)
    (statements : List (Statement ε)) {s : σ} (hvalid : valid s) :
    match Statement.firstViolation (instruction.frame (Machine.xlen σ) widths) statements with
    | none => ∃ s', Formula.execute instruction ⟨statements⟩ s = (.ok (), s') ∧ valid s'
    | some (k, violation) => Formula.BreaksOff instruction ⟨statements⟩ s k violation := by
  induction statements generalizing s with
  | nil => exact ⟨s, rfl, hvalid⟩
  | cons statement rest ih =>
    obtain ⟨s', hfirst, hvalid'⟩ := statement.execute_foreseen hserves instruction hvalid
    rw [Statement.firstViolation]
    cases houtcome : (statement.forecast (instruction.frame (Machine.xlen σ) widths)).outcome with
    | error violation =>
      rw [houtcome] at hfirst
      exact ⟨statement, s, s', rfl, rfl, hfirst, Interpretation.bind_of_error hfirst _⟩
    | ok u =>
      rw [houtcome] at hfirst
      have hrest := ih hvalid'
      cases hviolation : Statement.firstViolation (instruction.frame (Machine.xlen σ) widths) rest with
      | none =>
        rw [hviolation] at hrest
        obtain ⟨s'', hall, hvalid''⟩ := hrest
        exact ⟨s'', by rw [execute_cons hfirst, hall], hvalid''⟩
      | some failing =>
        rw [hviolation] at hrest
        exact BreaksOff.cons hfirst hrest

end Foreseen

/-- Whether a formula is valid does not depend on the state of the machine. For
    machines that serve every access, a pass over the widths tells what each expression
    comes to, a width or a violation, and which reads it makes: those of the nodes in
    post-order, up to the first one that breaks off. It tells the same for a formula:
    that it is executed, or which statement breaks it off and with what. -/
theorem Machine.Serves.validity_static [Machine σ ε] {valid : σ → Prop} {widths : Machine.Widths}
    (hserves : Machine.Serves valid widths) (instruction : Instruction) {s : σ} (hvalid : valid s) :
    let frame := instruction.frame (Machine.xlen σ) widths
    (∀ e : Expr,
      ((e.eval instruction : Interpretation σ Violation Bits) s).1.map Bits.width =
          (e.forecast frame).outcome.mapError Stop.error ∧
        ∀ record : Array (Access ε),
          ((e.eval instruction : Interpretation (Recorded σ ε) Violation Bits)
              ⟨s, record⟩).2.record.toList.filterMap Access.read? =
            record.toList.filterMap Access.read? ++ e.reads frame) ∧
      ∀ formula : Formula ε,
        match Statement.firstViolation frame formula.statements with
        | none => ((formula.execute instruction : Interpretation σ Violation Unit) s).1 = .ok ()
        | some (k, violation) => formula.BreaksOff instruction s k violation := by
  intro frame
  refine ⟨fun e => ?_, fun formula => ?_⟩
  · have hkeeps := e.dialogue_keeps (ε := ε) instruction (Machine.xlen σ) Machine.xlen_le widths
    refine ⟨?_, fun record => ?_⟩
    · obtain ⟨answer, s', hrun, hanswer, _⟩ := hserves.run_keeps rfl hkeeps hvalid
      rw [Expr.eval_eq_run, hrun]
      exact hanswer
    · rw [Expr.eval_eq_run, ← Expr.reads_forecast]
      exact hserves.run_reads rfl hkeeps hvalid record
  · have hforeseen := Formula.execute_foreseen hserves instruction formula.statements hvalid
    cases hviolation : Statement.firstViolation frame formula.statements with
    | none =>
      rw [hviolation] at hforeseen
      obtain ⟨s', hall, _⟩ := hforeseen
      exact congrArg Prod.fst hall
    | some failing =>
      rw [hviolation] at hforeseen
      exact hforeseen

/-- On a hart, an upper immediate instruction whose operands were decoded as bytes sets
    the pc and then breaks off at its register index. -/
theorem Hart.breaksOff_at_byte_index :
    let instruction : Instruction := ⟨⟨.U, [.ofByte 5, .ofByte 7], rfl⟩, 4⟩
    let hart := Hart.new .rv32 16 Extensions.none
    (((Expr.memory .pc).eval instruction : Interpretation (Hart .rv32) Violation Bits) hart).1.map Bits.width =
        .ok 8 ∧
      (((Expr.memory .pc).eval instruction : Interpretation (Recorded (Hart .rv32) Cause) Violation Bits)
          ⟨hart, #[]⟩).2.record.toList.filterMap Access.read? = [.pc, .cell] ∧
      Formula.BreaksOff instruction ⟨[.setPc .pc, .setRegister (.operand .U .rd) .pc]⟩ hart 1
        (.registerIdWidth 8) := by
  intro instruction hart
  obtain ⟨hexpr, hformula⟩ := Machine.Serves.validity_static (Hart.serves .rv32) instruction (s := hart) trivial
  obtain ⟨hwidth, hreads⟩ := hexpr (.memory .pc)
  exact ⟨hwidth, hreads #[], hformula ⟨[.setPc .pc, .setRegister (.operand .U .rd) .pc]⟩⟩

end RiscvSemantics
