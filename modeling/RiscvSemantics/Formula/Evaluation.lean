import RiscvSemantics.Bits.Slice
import RiscvSemantics.Formula.Basic
import RiscvSemantics.Formula.Violation
import RiscvSemantics.Machine.Basic

namespace RiscvSemantics

/-- The instruction that a formula is evaluated for: its operands and its length in
    bytes. -/
structure Instruction where
  operands : Operands
  bytes : Nat

/-- The operand that a formula for the given layout asks for. Another layout may
    carry the field too, but elsewhere and at another width, so the layouts have to
    agree. -/
def Instruction.operand (instruction : Instruction) (format : Format) (field : Field) :
    Except Violation Bits :=
  let mismatch := Violation.operandMismatch format field instruction.operands.format
  match instruction.operands.get? field with
  | some value => if instruction.operands.format = format then .ok value else .error mismatch
  | none => .error mismatch

variable {σ ε : Type} [Machine σ ε]

open Interpretation Violation

/-- Evaluates an expression for an instruction. Every part is evaluated before the
    parts are checked against each other, and both branches of a selection are
    evaluated, so the reads that a machine sees do not depend on values. -/
@[specialize] def Expr.eval (instruction : Instruction) : Expr → Interpretation σ Violation Bits
  | .literal value => pure value
  | .operand format field => checked (instruction.operand format field)
  | .pc => act Machine.getPc
  | .xlen => pure (Machine.word σ (Machine.xlen σ))
  | .instructionBytes => pure (Machine.word σ instruction.bytes)
  | .register id => do
    let index ← eval instruction id
    checked (requireRegisterId index)
    act (Machine.getRegister index)
  | .memory address => do
    let location ← eval instruction address
    checked (requireWidth .address (Machine.xlen σ) location)
    let cell ← act (Machine.getMemory location)
    checked (requireWidth .loadedValue cellBits cell)
    pure cell
  | .binary op left right => do
    let a ← eval instruction left
    let b ← eval instruction right
    if op.needsEqualWidths then checked (requireEqualWidths .binaryOperation a b)
    guarded (op.apply a b)
  | .unary op inner => do
    let a ← eval instruction inner
    pure (op.apply a)
  | .zeroExtend width inner => do
    let a ← eval instruction inner
    checked (requireWidening a width)
    guarded (a.zeroExtend width)
  | .signExtend width inner => do
    let a ← eval instruction inner
    checked (requireWidening a width)
    guarded (a.signExtend width)
  | .extract start width source => do
    let a ← eval instruction source
    checked (requireFits width)
    guarded (a.extract start width)
  | .concat high low => do
    let a ← eval instruction high
    let b ← eval instruction low
    checked (requireFits (a.width + b.width))
    guarded (a.concat b)
  | .select condition yes no => do
    let c ← eval instruction condition
    let a ← eval instruction yes
    let b ← eval instruction no
    checked (requireEqualWidths .selection a b)
    pure (if c.toNat = 1 then a else b)

/-- Evaluates a register index. -/
@[specialize] def Expr.evalRegisterId (instruction : Instruction) (e : Expr) :
    Interpretation σ Violation Bits := do
  let index ← e.eval instruction
  checked (requireRegisterId index)
  pure index

/-- Evaluates an address. -/
@[specialize] def Expr.evalAddress (instruction : Instruction) (e : Expr) :
    Interpretation σ Violation Bits := do
  let location ← e.eval instruction
  checked (requireWidth .address (Machine.xlen σ) location)
  pure location

/-- Executes a statement: all of its expressions first, then at most one change of
    the machine. -/
@[specialize] def Statement.execute (instruction : Instruction) :
    Statement ε → Interpretation σ Violation Unit
  | .setRegister id value => do
    let index ← id.evalRegisterId instruction
    let v ← value.eval instruction
    checked (requireWidth .registerValue (Machine.xlen σ) v)
    act (Machine.setRegister index v)
  | .setMemory address value => do
    let location ← address.evalAddress instruction
    let v ← value.eval instruction
    checked (requireWidth .storedValue cellBits v)
    act (Machine.setMemory location v)
  | .setPc value => do
    let v ← value.eval instruction
    checked (requireWidth .newPc (Machine.xlen σ) v)
    act (Machine.setPc v)
  | .raiseIf condition cause => do
    let c ← condition.eval instruction
    if c.toNat = 1 then act (Machine.raise cause)

/-- Executes statements in order. A raised cause does not keep the later ones from
    being executed; a violation does. -/
@[specialize] def Statement.executeAll (instruction : Instruction) :
    List (Statement ε) → Interpretation σ Violation Unit
  | [] => pure ()
  | statement :: rest => do
    statement.execute instruction
    executeAll instruction rest

@[specialize] def Formula.execute (instruction : Instruction) (formula : Formula ε) :
    Interpretation σ Violation Unit :=
  Statement.executeAll instruction formula.statements

end RiscvSemantics
