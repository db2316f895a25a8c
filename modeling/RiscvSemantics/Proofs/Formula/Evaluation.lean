import RiscvSemantics.Formula.Evaluation
import RiscvSemantics.Proofs.Machine.Interpretation

namespace RiscvSemantics

open Interpretation Violation

variable {σ ε : Type} [Machine σ ε] {instruction : Instruction} {s s₁ s₂ s₃ : σ} {a b c d : Bits}

theorem checked_ok (u : Unit) : (checked (.ok u) : Interpretation σ Violation Unit) s = (.ok u, s) := rfl

namespace Expr

theorem eval_operand {format : Format} {field : Field} (ha : instruction.operand format field = .ok a) :
    (operand format field).eval instruction s = (.ok a, s) := by
  rw [eval, ha]
  rfl

theorem eval_register {id : Expr} (hid : id.eval instruction s = (.ok a, s₁))
    (hwidth : a.width = registerIdBits) (hget : (Machine.getRegister a : Action σ Bits) s₁ = (.ok b, s₂)) :
    (register id).eval instruction s = (.ok b, s₂) := by
  rw [eval, bind_of_ok hid, requireRegisterId, if_pos hwidth, bind_of_ok (checked_ok _), act_of_ok hget]

theorem eval_memory {address : Expr} (haddress : address.eval instruction s = (.ok a, s₁))
    (hwidth : a.width = Machine.xlen σ) (hget : (Machine.getMemory a : Action σ Bits) s₁ = (.ok b, s₂))
    (hcell : b.width = cellBits) : (memory address).eval instruction s = (.ok b, s₂) := by
  rw [eval, bind_of_ok haddress, requireWidth, if_pos hwidth, bind_of_ok (checked_ok _),
    bind_of_ok (act_of_ok hget), requireWidth, if_pos hcell, bind_of_ok (checked_ok _)]
  rfl

theorem eval_binary {op : BinaryOp} {left right : Expr} (ha : left.eval instruction s = (.ok a, s₁))
    (hb : right.eval instruction s₁ = (.ok b, s₂)) (hwidth : op.needsEqualWidths = true → a.width = b.width)
    (hc : op.apply a b = .ok c) : (binary op left right).eval instruction s = (.ok c, s₂) := by
  rw [eval, bind_of_ok ha, bind_of_ok hb, hc]
  cases hop : op.needsEqualWidths with
  | false => rfl
  | true =>
    rw [requireEqualWidths, if_pos (hwidth hop)]
    rfl

theorem eval_unary {op : UnaryOp} {inner : Expr} (ha : inner.eval instruction s = (.ok a, s₁)) :
    (unary op inner).eval instruction s = (.ok (op.apply a), s₁) := by
  rw [eval, bind_of_ok ha]
  rfl

theorem requireWidening_ok {width : Nat} (hfits : width ≤ 64) (hwidens : a.width ≤ width) :
    requireWidening a width = .ok () := by
  rw [requireWidening, requireFits, if_pos hfits]
  exact if_neg (Nat.not_lt.mpr hwidens)

theorem eval_zeroExtend {width : Nat} {inner : Expr} (ha : inner.eval instruction s = (.ok a, s₁))
    (hfits : width ≤ 64) (hwidens : a.width ≤ width) :
    (zeroExtend width inner).eval instruction s = (.ok ⟨width, a.value.setWidth width, hfits⟩, s₁) := by
  rw [eval, bind_of_ok ha, requireWidening_ok hfits hwidens, bind_of_ok (checked_ok _), Bits.zeroExtend,
    if_neg (Nat.not_lt.mpr hwidens), dif_pos hfits]
  rfl

theorem eval_signExtend {width : Nat} {inner : Expr} (ha : inner.eval instruction s = (.ok a, s₁))
    (hfits : width ≤ 64) (hwidens : a.width ≤ width) :
    (signExtend width inner).eval instruction s = (.ok ⟨width, a.value.signExtend width, hfits⟩, s₁) := by
  rw [eval, bind_of_ok ha, requireWidening_ok hfits hwidens, bind_of_ok (checked_ok _), Bits.signExtend,
    if_neg (Nat.not_lt.mpr hwidens), dif_pos hfits]
  rfl

theorem eval_extract {start width : Nat} {source : Expr} (ha : source.eval instruction s = (.ok a, s₁))
    (hfits : width ≤ 64) :
    (extract start width source).eval instruction s =
      (.ok ⟨width, a.value.extractLsb' start width, hfits⟩, s₁) := by
  rw [eval, bind_of_ok ha, requireFits, if_pos hfits, bind_of_ok (checked_ok _), Bits.extract, dif_pos hfits]
  rfl

theorem eval_concat {high low : Expr} (ha : high.eval instruction s = (.ok a, s₁))
    (hb : low.eval instruction s₁ = (.ok b, s₂)) (hfits : a.width + b.width ≤ 64) :
    (concat high low).eval instruction s = (.ok ⟨a.width + b.width, a.value ++ b.value, hfits⟩, s₂) := by
  rw [eval, bind_of_ok ha, bind_of_ok hb, requireFits, if_pos hfits, bind_of_ok (checked_ok _), Bits.concat,
    dif_pos hfits]
  rfl

theorem eval_select {condition yes no : Expr} (hc : condition.eval instruction s = (.ok c, s₁))
    (ha : yes.eval instruction s₁ = (.ok a, s₂)) (hb : no.eval instruction s₂ = (.ok b, s₃))
    (hwidth : a.width = b.width) :
    (select condition yes no).eval instruction s = (.ok (if c.toNat = 1 then a else b), s₃) := by
  rw [eval, bind_of_ok hc, bind_of_ok ha, bind_of_ok hb, requireEqualWidths, if_pos hwidth,
    bind_of_ok (checked_ok _)]
  rfl

end Expr

namespace Statement

theorem execute_setRegister {id value : Expr} (hid : id.eval instruction s = (.ok a, s₁))
    (hindex : a.width = registerIdBits) (hb : value.eval instruction s₁ = (.ok b, s₂))
    (hwidth : b.width = Machine.xlen σ)
    (hset : (Machine.setRegister a b : Action σ Unit) s₂ = (.ok (), s₃)) :
    (setRegister id value).execute instruction s = (.ok (), s₃) := by
  have hindexed : (id.evalRegisterId instruction : Interpretation σ Violation Bits) s = (.ok a, s₁) := by
    rw [Expr.evalRegisterId, bind_of_ok hid, requireRegisterId, if_pos hindex, bind_of_ok (checked_ok _)]
    rfl
  rw [execute, bind_of_ok hindexed, bind_of_ok hb, requireWidth, if_pos hwidth, bind_of_ok (checked_ok _),
    act_of_ok hset]

theorem execute_setMemory {address value : Expr} (haddress : address.eval instruction s = (.ok a, s₁))
    (hlocation : a.width = Machine.xlen σ) (hb : value.eval instruction s₁ = (.ok b, s₂))
    (hcell : b.width = cellBits) (hset : (Machine.setMemory a b : Action σ Unit) s₂ = (.ok (), s₃)) :
    (setMemory address value).execute instruction s = (.ok (), s₃) := by
  have hlocated : (address.evalAddress instruction : Interpretation σ Violation Bits) s = (.ok a, s₁) := by
    rw [Expr.evalAddress, bind_of_ok haddress, requireWidth, if_pos hlocation, bind_of_ok (checked_ok _)]
    rfl
  rw [execute, bind_of_ok hlocated, bind_of_ok hb, requireWidth, if_pos hcell, bind_of_ok (checked_ok _),
    act_of_ok hset]

theorem execute_setPc {value : Expr} (ha : value.eval instruction s = (.ok a, s₁))
    (hwidth : a.width = Machine.xlen σ) (hset : (Machine.setPc a : Action σ Unit) s₁ = (.ok (), s₂)) :
    (setPc value).execute instruction s = (.ok (), s₂) := by
  rw [execute, bind_of_ok ha, requireWidth, if_pos hwidth, bind_of_ok (checked_ok _), act_of_ok hset]

theorem execute_raiseIf {condition : Expr} {cause : ε} (hc : condition.eval instruction s = (.ok c, s₁))
    (hraise : (Machine.raise cause : Action σ Unit) s₁ = (.ok (), s₂)) :
    (raiseIf condition cause).execute instruction s = (.ok (), if c.toNat = 1 then s₂ else s₁) := by
  rw [execute, bind_of_ok hc]
  split
  · exact act_of_ok hraise
  · rfl

theorem executeAll_cons {statement : Statement ε} {rest : List (Statement ε)}
    (hfirst : statement.execute instruction s = (.ok (), s₁))
    (hrest : executeAll instruction rest s₁ = (.ok (), s₂)) :
    executeAll instruction (statement :: rest) s = (.ok (), s₂) := by
  rw [executeAll, bind_of_ok hfirst, hrest]

theorem executeAll_append_eq (instruction : Instruction) (first rest : List (Statement ε)) :
    (executeAll instruction (first ++ rest) : Interpretation σ Violation Unit) =
      executeAll instruction first >>= fun _ => executeAll instruction rest := by
  induction first with
  | nil => exact (pure_bind _ _).symm
  | cons statement first ih => simp only [List.cons_append, executeAll, ih, bind_assoc]

theorem executeAll_append {first rest : List (Statement ε)}
    (hfirst : executeAll instruction first s = (.ok (), s₁))
    (hrest : executeAll instruction rest s₁ = (.ok (), s₂)) :
    executeAll instruction (first ++ rest) s = (.ok (), s₂) := by
  rw [executeAll_append_eq, bind_of_ok hfirst, hrest]

end Statement

end RiscvSemantics
