import RiscvSemantics.Proofs.Faultless.Dialogue
import RiscvSemantics.Proofs.Formula.Evaluation

namespace RiscvSemantics

open Violation

variable {σ ε δ α : Type}

/-- An interpretation comes to a value, or to an error that it reports. -/
def Interpretation.Returns (x : Interpretation σ δ α) (s : σ) : Prop :=
  (∃ a, (x s).1 = .ok a) ∨ ∃ e, (x s).1 = .error (.error e)

/-- Whatever the interpreter is told to do in a state, for an instruction, it returns. -/
structure Machine.Returns [Machine σ ε] (instruction : Instruction) (s : σ) : Prop where
  eval : ∀ e : Expr, (e.eval instruction : Interpretation σ Violation Bits).Returns s
  registerId : ∀ e : Expr, (e.evalRegisterId instruction : Interpretation σ Violation Bits).Returns s
  address : ∀ e : Expr, (e.evalAddress instruction : Interpretation σ Violation Bits).Returns s
  statement : ∀ statement : Statement ε,
    (statement.execute instruction : Interpretation σ Violation Unit).Returns s
  formula : ∀ formula : Formula ε, (formula.execute instruction : Interpretation σ Violation Unit).Returns s
  fetch : ∃ pc word, ((fetch : Action σ (Bits × BitVec 32)) s).1 = .ok (pc, word)
  step : ∀ {ω : Type} (catalog : Catalog ω ε), (step catalog : Interpretation σ RunError Unit).Returns s
  run : ∀ {ω : Type} (catalog : Catalog ω ε) (budget : Nat),
    (run catalog budget : Interpretation σ RunError (Option ε)).Returns s

variable [Machine σ ε] {valid : σ → Prop} {s : σ} {instruction : Instruction}

namespace Machine.Faultless

/-- Held with a machine that does not fault, such a dialogue does not either. -/
theorem run_returns (hfaultless : Machine.Faultless valid) {d : Dialogue ε δ α} (hd : d.Faultless)
    (hvalid : valid s) : (d.run : Interpretation σ δ α).Returns s := by
  induction d generalizing s with
  | done answer =>
    cases answer with
    | ok a => exact .inl ⟨a, rfl⟩
    | error stop =>
      cases stop with
      | fault fault => exact absurd rfl (hd fault)
      | error e => exact .inr ⟨e, rfl⟩
  | look next ih => exact ih _ _ (hd _ _) hvalid
  | ask q next ih =>
    obtain ⟨value, s', hask, hvalid'⟩ := hfaultless.ask hvalid hd.1
    rw [Interpretation.Returns, Dialogue.run_ask hask]
    exact ih value (hd.2 value) hvalid'
  | make c next ih =>
    obtain ⟨s', hmake, hvalid'⟩ := hfaultless.make hvalid hd.1
    rw [Interpretation.Returns, Dialogue.run_make hmake]
    exact ih hd.2 hvalid'

/-- Held with a machine that does not fault, such a dialogue leaves it in a valid state. -/
theorem run_valid (hfaultless : Machine.Faultless valid) {d : Dialogue ε δ α} (hd : d.Faultless)
    (hvalid : valid s) : valid ((d.run : Interpretation σ δ α) s).2 := by
  induction d generalizing s with
  | done answer => exact hvalid
  | look next ih => exact ih _ _ (hd _ _) hvalid
  | ask q next ih =>
    obtain ⟨value, s', hask, hvalid'⟩ := hfaultless.ask hvalid hd.1
    rw [Dialogue.run_ask hask]
    exact ih value (hd.2 value) hvalid'
  | make c next ih =>
    obtain ⟨s', hmake, hvalid'⟩ := hfaultless.make hvalid hd.1
    rw [Dialogue.run_make hmake]
    exact ih hd.2 hvalid'

theorem returns (hfaultless : Machine.Faultless valid) (hvalid : valid s) :
    Machine.Returns instruction s where
  eval e := by
    rw [Expr.eval_eq_run]
    exact hfaultless.run_returns (e.dialogue_faultless instruction _ _) hvalid
  registerId e := by
    have hrun : (e.evalRegisterId instruction : Interpretation σ Violation Bits) =
        Dialogue.run (do
          let index ← e.dialogue instruction (Machine.xlen σ) Machine.xlen_le
          Dialogue.checked (requireRegisterId index)
          pure index) := by
      simp only [Expr.evalRegisterId, Expr.eval_eq_run, Dialogue.run_bind, Dialogue.run_checked,
        Dialogue.run_pure]
    rw [hrun]
    exact hfaultless.run_returns ((e.dialogue_faultless instruction _ _).bind fun index =>
      Dialogue.faultless_checked_bind fun _ _ => Dialogue.faultless_pure index) hvalid
  address e := by
    have hrun : (e.evalAddress instruction : Interpretation σ Violation Bits) =
        Dialogue.run (do
          let location ← e.dialogue instruction (Machine.xlen σ) Machine.xlen_le
          Dialogue.checked (requireWidth .address (Machine.xlen σ) location)
          pure location) := by
      simp only [Expr.evalAddress, Expr.eval_eq_run, Dialogue.run_bind, Dialogue.run_checked,
        Dialogue.run_pure]
    rw [hrun]
    exact hfaultless.run_returns ((e.dialogue_faultless instruction _ _).bind fun location =>
      Dialogue.faultless_checked_bind fun _ _ => Dialogue.faultless_pure location) hvalid
  statement statement := by
    rw [Statement.execute_eq_run]
    exact hfaultless.run_returns (statement.dialogue_faultless instruction _ _) hvalid
  formula formula := by
    rw [Formula.execute, Statement.executeAll_eq_run]
    exact hfaultless.run_returns (Statement.dialogueAll_faultless instruction _ _ _) hvalid
  fetch := by
    have hreturns : (fetchDialogue.run : Interpretation σ Violation (Bits × BitVec 32)).Returns s :=
      hfaultless.run_returns fetchDialogue_faultless hvalid
    rw [← act_fetch_eq_run, Interpretation.Returns, Interpretation.act_apply] at hreturns
    cases hfetch : (RiscvSemantics.fetch s : Except Fault (Bits × BitVec 32) × σ).1 with
    | ok fetched => exact ⟨fetched.1, fetched.2, rfl⟩
    | error fault =>
      rw [hfetch] at hreturns
      obtain ⟨_, hvalue⟩ | ⟨_, herror⟩ := hreturns
      · cases hvalue
      · cases herror
  step catalog := by
    rw [step_eq_run]
    exact hfaultless.run_returns (catalog.stepDialogue_faultless _ _) hvalid
  run catalog budget := by
    rw [run_eq_run]
    exact hfaultless.run_returns (catalog.runDialogue_faultless _ _ budget) hvalid

end Machine.Faultless

/-- An evaluation of a binary expression reports unequal widths exactly where its operator
    would have faulted. -/
theorem Expr.eval_binary_widthMismatch_iff {op : BinaryOp} {left right : Expr} {a b : Bits} {s₁ s₂ : σ}
    (ha : left.eval instruction s = (.ok a, s₁)) (hb : right.eval instruction s₁ = (.ok b, s₂)) :
    (binary op left right).eval instruction s =
        (.error (.error (.widthMismatch .binaryOperation a.width b.width)), s₂) ↔
      ∃ fault, op.apply a b = .error fault := by
  rw [op.apply_error_iff]
  constructor
  · intro hmismatch
    refine Decidable.byContradiction fun hnot => ?_
    have hwidth : op.needsEqualWidths = true → a.width = b.width := fun hneeds =>
      Decidable.byContradiction fun hne => hnot ⟨hneeds, hne⟩
    obtain ⟨c, hc, _⟩ := op.apply_ok hwidth
    rw [eval_binary ha hb hwidth hc] at hmismatch
    cases congrArg Prod.fst hmismatch
  · rintro ⟨hneeds, hne⟩
    rw [eval, Interpretation.bind_of_ok ha, Interpretation.bind_of_ok hb, if_pos hneeds, requireEqualWidths,
      if_neg hne]
    rfl

/-- Where the interpreter goes without a check, the operation that checks comes to the
    same. -/
structure Machine.ChecksPassed (σ : Type) [Machine σ ε] : Prop where
  word : ∀ n, Bits.ofNat (Machine.xlen σ) n = .ok (Machine.word σ n)
  address : ∀ (pc : Bits) (offset : Nat), (Bits.ofNat pc.width offset).bind pc.add = .ok (pc.advance offset)
  cell : ∀ cell : Bits, cell.extract 0 8 = .ok (.ofByte (cell.value.setWidth 8))
  operand : ∀ (operands : Operands) (field : Field) (index : Nat),
    operands.format.position? field = some index → index < operands.values.length

theorem Machine.checksPassed : Machine.ChecksPassed σ where
  word _ := dif_pos Machine.xlen_le
  address := Bits.add_ofNat
  cell := Bits.extract_byte
  operand _ _ _ := Operands.lt_length_of_position?

/-- Interpreting never faults. On a machine whose accesses do not fault, as those of every
    hart do not, whatever the interpreter is told to do returns, be the expressions and
    operands ever so odd and the answers of any width. Operators fault exactly for unequal
    widths where they want equal ones, and that is what an evaluation reports before it
    comes to the operator. -/
theorem Machine.Faultless.never_faults (hfaultless : Machine.Faultless valid) :
    (∀ (s : σ) (instruction : Instruction), valid s → Machine.Returns instruction s) ∧
      (∀ x : Xlen, Machine.Faultless fun _ : Hart x => True) ∧
      Machine.ChecksPassed σ ∧
      (∀ (op : BinaryOp) (a b : Bits),
        (∃ fault, op.apply a b = .error fault) ↔ op.needsEqualWidths = true ∧ a.width ≠ b.width) ∧
      ∀ (instruction : Instruction) (op : BinaryOp) (left right : Expr) (a b : Bits) (s s₁ s₂ : σ),
        left.eval instruction s = (.ok a, s₁) → right.eval instruction s₁ = (.ok b, s₂) →
          ((Expr.binary op left right).eval instruction s =
              (.error (.error (.widthMismatch .binaryOperation a.width b.width)), s₂) ↔
            ∃ fault, op.apply a b = .error fault) :=
  ⟨fun _ _ hvalid => hfaultless.returns hvalid, Hart.faultless, Machine.checksPassed,
    BinaryOp.apply_error_iff, fun _ _ _ _ _ _ _ _ _ ha hb => Expr.eval_binary_widthMismatch_iff ha hb⟩

/-- On a sparse machine that answers at 3, 64 and 1 bits, all returns. The sum of its program
    counter and a value of register width, which would fault, is reported. -/
theorem Sparse.reports_odd_widths :
    let sparse := Sparse.new ⟨3, 64, 1⟩
    let instruction : Instruction := ⟨⟨.U, [.ofByte 5, .ofByte 7], rfl⟩, 4⟩
    sparse.widths.Fit ∧ Machine.Returns instruction sparse ∧
      (Expr.binary .add .pc .xlen).eval instruction sparse =
        (.error (.error (.widthMismatch .binaryOperation 3 32)), sparse) := by
  intro sparse instruction
  have hfit : sparse.widths.Fit := ⟨by decide, by decide, by decide⟩
  obtain ⟨hreturns, _, _, _, hmismatch⟩ := Machine.Faultless.never_faults Sparse.faultless
  have hpc : Expr.pc.eval instruction sparse = (.ok ⟨3, 0, by decide⟩, sparse) := rfl
  have hxlen : Expr.xlen.eval instruction sparse = (.ok ⟨32, 32, by decide⟩, sparse) := rfl
  refine ⟨hfit, hreturns sparse instruction hfit, ?_⟩
  exact (hmismatch instruction .add .pc .xlen _ _ sparse sparse sparse hpc hxlen).mpr ⟨_, rfl⟩

end RiscvSemantics
