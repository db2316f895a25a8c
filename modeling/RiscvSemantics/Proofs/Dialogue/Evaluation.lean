import RiscvSemantics.Formula.Evaluation
import RiscvSemantics.Proofs.Dialogue.Basic

namespace RiscvSemantics

variable {σ ε : Type}

open Dialogue Violation

/-- The dialogue of an evaluation with a machine whose registers are `xlen` bits
    wide. -/
def Expr.dialogue (instruction : Instruction) (xlen : Nat) (hxlen : xlen ≤ 64) :
    Expr → Dialogue ε Violation Bits
  | .literal value => pure value
  | .operand format field => checked (instruction.operand format field)
  | .pc => query .pc
  | .xlen => pure ⟨xlen, BitVec.ofNat xlen xlen, hxlen⟩
  | .instructionBytes => pure ⟨xlen, BitVec.ofNat xlen instruction.bytes, hxlen⟩
  | .register id => do
    let index ← dialogue instruction xlen hxlen id
    checked (requireRegisterId index)
    query (.register index)
  | .memory address => do
    let location ← dialogue instruction xlen hxlen address
    checked (requireWidth .address xlen location)
    let cell ← query (.memory location)
    checked (requireWidth .loadedValue cellBits cell)
    pure cell
  | .binary op left right => do
    let a ← dialogue instruction xlen hxlen left
    let b ← dialogue instruction xlen hxlen right
    if op.needsEqualWidths then checked (requireEqualWidths .binaryOperation a b)
    guarded (op.apply a b)
  | .unary op inner => do
    let a ← dialogue instruction xlen hxlen inner
    pure (op.apply a)
  | .zeroExtend width inner => do
    let a ← dialogue instruction xlen hxlen inner
    checked (requireWidening a width)
    guarded (a.zeroExtend width)
  | .signExtend width inner => do
    let a ← dialogue instruction xlen hxlen inner
    checked (requireWidening a width)
    guarded (a.signExtend width)
  | .extract start width source => do
    let a ← dialogue instruction xlen hxlen source
    checked (requireFits width)
    guarded (a.extract start width)
  | .concat high low => do
    let a ← dialogue instruction xlen hxlen high
    let b ← dialogue instruction xlen hxlen low
    checked (requireFits (a.width + b.width))
    guarded (a.concat b)
  | .select condition yes no => do
    let c ← dialogue instruction xlen hxlen condition
    let a ← dialogue instruction xlen hxlen yes
    let b ← dialogue instruction xlen hxlen no
    checked (requireEqualWidths .selection a b)
    pure (if c.toNat = 1 then a else b)

/-- What a statement asks before it changes anything, and the change that it comes
    to: none where a cause is not raised. -/
def Statement.preparation (instruction : Instruction) (xlen : Nat) (hxlen : xlen ≤ 64) :
    Statement ε → Dialogue ε Violation (Option (Change ε))
  | .setRegister id value => do
    let index ← id.dialogue instruction xlen hxlen
    checked (requireRegisterId index)
    let v ← value.dialogue instruction xlen hxlen
    checked (requireWidth .registerValue xlen v)
    pure (some (.register index v))
  | .setMemory address value => do
    let location ← address.dialogue instruction xlen hxlen
    checked (requireWidth .address xlen location)
    let v ← value.dialogue instruction xlen hxlen
    checked (requireWidth .storedValue cellBits v)
    pure (some (.memory location v))
  | .setPc value => do
    let v ← value.dialogue instruction xlen hxlen
    checked (requireWidth .newPc xlen v)
    pure (some (.pc v))
  | .raiseIf condition cause => do
    let c ← condition.dialogue instruction xlen hxlen
    pure (if c.toNat = 1 then some (.raise cause) else none)

def Dialogue.conclude : Option (Change ε) → Dialogue ε Violation Unit
  | some c => change c
  | none => pure ()

/-- The dialogue of a statement: its change, if any, is made last. -/
def Statement.dialogue (instruction : Instruction) (xlen : Nat) (hxlen : xlen ≤ 64)
    (statement : Statement ε) : Dialogue ε Violation Unit :=
  statement.preparation instruction xlen hxlen >>= conclude

def Statement.dialogueAll (instruction : Instruction) (xlen : Nat) (hxlen : xlen ≤ 64) :
    List (Statement ε) → Dialogue ε Violation Unit
  | [] => pure ()
  | statement :: rest => do
    statement.dialogue instruction xlen hxlen
    dialogueAll instruction xlen hxlen rest

section Run

variable [Machine σ ε]

-- Many proofs rewrite with the equations of evaluation; they are made here, before any of them.
attribute [local simp] Expr.eval

/-- Evaluation is its dialogue held with the machine. -/
theorem Expr.eval_eq_run (instruction : Instruction) (e : Expr) :
    (e.eval instruction : Interpretation σ Violation Bits) =
      (e.dialogue instruction (Machine.xlen σ) Machine.xlen_le).run := by
  induction e with
  | literal value => rfl
  | operand format field => simp only [eval, dialogue, run_checked]
  | pc => simp only [eval, dialogue, run_query, Query.ask]
  | xlen => rfl
  | instructionBytes => rfl
  | register id ih => simp only [eval, dialogue, ih, run_bind, run_checked, run_query, Query.ask]
  | memory address ih =>
    simp only [eval, dialogue, ih, run_bind, run_checked, run_query, run_pure, Query.ask]
  | binary op left right ihl ihr =>
    simp only [eval, dialogue, ihl, ihr]
    cases op.needsEqualWidths with
    | false => simp
    | true => simp
  | unary op inner ih => simp only [eval, dialogue, ih, run_bind, run_pure]
  | zeroExtend width inner ih => simp only [eval, dialogue, ih, run_bind, run_checked, run_guarded]
  | signExtend width inner ih => simp only [eval, dialogue, ih, run_bind, run_checked, run_guarded]
  | extract start width source ih =>
    simp only [eval, dialogue, ih, run_bind, run_checked, run_guarded]
  | concat high low ihh ihl =>
    simp only [eval, dialogue, ihh, ihl, run_bind, run_checked, run_guarded]
  | select condition yes no ihc ihy ihn =>
    simp only [eval, dialogue, ihc, ihy, ihn, run_bind, run_checked, run_pure]

theorem Statement.execute_eq_run (instruction : Instruction) (statement : Statement ε) :
    (statement.execute instruction : Interpretation σ Violation Unit) =
      (statement.dialogue instruction (Machine.xlen σ) Machine.xlen_le).run := by
  cases statement with
  | setRegister id value =>
    simp only [execute, Expr.evalRegisterId, dialogue, preparation, conclude, Expr.eval_eq_run,
      run_bind, run_checked, run_change, Change.make, bind_assoc, pure_bind]
  | setMemory address value =>
    simp only [execute, Expr.evalAddress, dialogue, preparation, conclude, Expr.eval_eq_run,
      run_bind, run_checked, run_change, Change.make, bind_assoc, pure_bind]
  | setPc value =>
    simp only [execute, dialogue, preparation, conclude, Expr.eval_eq_run, run_bind, run_checked,
      run_change, Change.make, bind_assoc, pure_bind]
  | raiseIf condition cause =>
    simp only [execute, dialogue, preparation, Expr.eval_eq_run, run_bind, bind_assoc,
      pure_bind]
    congr 1
    funext c
    split
    · simp only [conclude, run_change, Change.make]
    · simp only [conclude, run_pure]

theorem Statement.executeAll_eq_run (instruction : Instruction) (statements : List (Statement ε)) :
    (Statement.executeAll instruction statements : Interpretation σ Violation Unit) =
      (Statement.dialogueAll instruction (Machine.xlen σ) Machine.xlen_le statements).run := by
  induction statements with
  | nil => rfl
  | cons statement rest ih =>
    simp only [executeAll, dialogueAll, run_bind, ih, Statement.execute_eq_run]

end Run

end RiscvSemantics
