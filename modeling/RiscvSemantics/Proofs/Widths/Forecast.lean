import RiscvSemantics.Formula.Evaluation
import RiscvSemantics.Proofs.Bits.Width
import RiscvSemantics.Proofs.Widths.Service

namespace RiscvSemantics

open Violation

/-- What can be said beforehand of a computation that is to give an `α`: the reads
    that it makes, in order, and what it comes to. -/
structure Forecast (α : Type) where
  reads : List Read
  outcome : Except Violation α

namespace Forecast

variable {α β : Type}

/-- A violation is the end: nothing is read after it. -/
def bind (forecast : Forecast α) (f : α → Forecast β) : Forecast β :=
  match forecast.outcome with
  | .ok a => ⟨forecast.reads ++ (f a).reads, (f a).outcome⟩
  | .error violation => ⟨forecast.reads, .error violation⟩

instance : Monad Forecast where
  pure a := ⟨[], .ok a⟩
  bind := bind

def read (r : Read) (width : Nat) : Forecast Nat :=
  ⟨[r], .ok width⟩

def checked (x : Except Violation α) : Forecast α :=
  ⟨[], x⟩

/-- A condition without which a violation is reported. -/
def demand (p : Prop) [Decidable p] (violation : Violation) : Forecast Unit :=
  checked (if p then .ok () else .error violation)

theorem bind_pure (forecast : Forecast α) : forecast >>= pure = forecast := by
  obtain ⟨reads, outcome⟩ := forecast
  cases outcome with
  | ok a => exact congrArg (Forecast.mk · (.ok a)) (List.append_nil reads)
  | error violation => rfl

theorem pure_bind (a : α) (f : α → Forecast β) : pure a >>= f = f a := rfl

theorem demand_eq_pure {p : Prop} [Decidable p] (hp : p) (violation : Violation) :
    demand p violation = pure () := by
  rw [demand, if_pos hp]
  rfl

theorem of_demand_ok {p : Prop} [Decidable p] {violation : Violation} {u : Unit}
    (hok : (demand p violation).outcome = .ok u) : p := by
  by_cases hp : p
  · exact hp
  · simp only [demand, checked, if_neg hp] at hok
    cases hok

end Forecast

/-- All that a forecast goes by: the layout of the operands and their widths, the
    width of registers, and the widths at which the machine answers. -/
structure Frame where
  format : Format
  operands : List Nat
  xlen : Nat
  widths : Machine.Widths

def Instruction.frame (instruction : Instruction) (xlen : Nat) (widths : Machine.Widths) : Frame :=
  ⟨instruction.operands.format, instruction.operands.values.map Bits.width, xlen, widths⟩

/-- The width of the operand that a formula for the given layout asks for. -/
def Frame.operand (frame : Frame) (format : Format) (field : Field) : Except Violation Nat :=
  let mismatch := operandMismatch format field frame.format
  match (frame.format.position? field).bind (frame.operands[·]?) with
  | some width => if frame.format = format then .ok width else .error mismatch
  | none => .error mismatch

def Forecast.widen (source target : Nat) : Forecast Nat := do
  checked (if 64 < target then .error (widthOverflow target)
    else if target < source then .error (narrowingExtension source target)
    else .ok ())
  pure target

/-- Goes through an expression from left to right as its evaluation does, with
    widths in place of values. -/
def Expr.forecast (frame : Frame) : Expr → Forecast Nat
  | .literal value => pure value.width
  | .operand format field => .checked (frame.operand format field)
  | .pc => .read .pc frame.widths.pc
  | .xlen | .instructionBytes => pure frame.xlen
  | .register id => do
    let width ← forecast frame id
    .demand (width = registerIdBits) (registerIdWidth width)
    .read .register frame.widths.register
  | .memory address => do
    let width ← forecast frame address
    .demand (width = frame.xlen) (valueWidth .address frame.xlen width)
    let cell ← .read .cell frame.widths.cell
    .demand (cell = cellBits) (valueWidth .loadedValue cellBits cell)
    pure cell
  | .binary op left right => do
    let a ← forecast frame left
    let b ← forecast frame right
    .demand (op.needsEqualWidths = true → a = b) (widthMismatch .binaryOperation a b)
    pure (op.resultWidth a)
  | .unary _ inner => forecast frame inner
  | .zeroExtend width inner | .signExtend width inner => do
    let source ← forecast frame inner
    .widen source width
  | .extract _ width source => do
    let _ ← forecast frame source
    .demand (width ≤ 64) (widthOverflow width)
    pure width
  | .concat high low => do
    let a ← forecast frame high
    let b ← forecast frame low
    .demand (a + b ≤ 64) (widthOverflow (a + b))
    pure (a + b)
  | .select condition yes no => do
    let _ ← forecast frame condition
    let a ← forecast frame yes
    let b ← forecast frame no
    .demand (a = b) (widthMismatch .selection a b)
    pure a

def Statement.forecast {ε : Type} (frame : Frame) : Statement ε → Forecast Unit
  | .setRegister id value => do
    let index ← id.forecast frame
    .demand (index = registerIdBits) (registerIdWidth index)
    let width ← value.forecast frame
    .demand (width = frame.xlen) (valueWidth .registerValue frame.xlen width)
  | .setMemory address value => do
    let location ← address.forecast frame
    .demand (location = frame.xlen) (valueWidth .address frame.xlen location)
    let width ← value.forecast frame
    .demand (width = cellBits) (valueWidth .storedValue cellBits width)
  | .setPc value => do
    let width ← value.forecast frame
    .demand (width = frame.xlen) (valueWidth .newPc frame.xlen width)
  | .raiseIf condition _ => do
    let _ ← condition.forecast frame
    pure ()

/-- The first of some statements that breaks off, by its position, and how. -/
def Statement.firstViolation {ε : Type} (frame : Frame) : List (Statement ε) → Option (Nat × Violation)
  | [] => none
  | statement :: rest =>
    match (statement.forecast frame).outcome with
    | .error violation => some (0, violation)
    | .ok () => (firstViolation frame rest).map fun (k, violation) => (k + 1, violation)

end RiscvSemantics
