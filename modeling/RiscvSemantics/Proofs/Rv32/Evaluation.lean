import RiscvSemantics.Proofs.Formula.Evaluation
import RiscvSemantics.Proofs.Hart.View
import RiscvSemantics.Run.Step
import RiscvSemantics.Rv32.Semantics

namespace RiscvSemantics.Rv32

open RiscvSemantics.Expr

def word (v : BitVec 32) : Bits :=
  ⟨32, v, Xlen.rv32.bits_le⟩

theorem registerId_le : 5 ≤ 64 := by
  decide

def registerId (id : BitVec 5) : Bits :=
  ⟨5, id, registerId_le⟩

/-- An immediate, as it stands in the word. -/
def immediate {n : Nat} (i : BitVec n) (hwidens : n ≤ 32) : Bits :=
  ⟨n, i, Nat.le_trans hwidens Xlen.rv32.bits_le⟩

/-- What can be seen of a hart with 32-bit registers. -/
def view (hart : Hart .rv32) : Hart.View 32 :=
  hart.view

/-- A word as an instruction of the given layout. -/
def Word.instruction (w : Word) (format : Format) : Instruction :=
  ⟨w.operands format, instructionBytes⟩

section Operators

variable {σ ε : Type} [Machine σ ε] {instruction : Instruction} {s s₁ s₂ s₃ : σ} {left right : Expr}
  {a b : BitVec 32}

theorem eval_combine {op : BinaryOp} {combination : Combination}
    (f : {n : Nat} → BitVec n → BitVec n → BitVec n) (hop : op.apply = Bits.combine combination f)
    (ha : left.eval instruction s = (.ok (word a), s₁))
    (hb : right.eval instruction s₁ = (.ok (word b), s₂)) :
    (binary op left right).eval instruction s = (.ok (word (f a b)), s₂) :=
  eval_binary ha hb (fun _ => rfl) (by rw [hop]; rfl)

theorem eval_compare {op : BinaryOp} (f : {n : Nat} → BitVec n → BitVec n → Bool)
    (hop : op.apply = Bits.compare f) (ha : left.eval instruction s = (.ok (word a), s₁))
    (hb : right.eval instruction s₁ = (.ok (word b), s₂)) :
    (binary op left right).eval instruction s = (.ok (.ofBool (f a b)), s₂) :=
  eval_binary ha hb (fun _ => rfl) (by rw [hop]; rfl)

theorem eval_add (ha : left.eval instruction s = (.ok (word a), s₁))
    (hb : right.eval instruction s₁ = (.ok (word b), s₂)) :
    (left.add right).eval instruction s = (.ok (word (a + b)), s₂) :=
  eval_combine (fun x y => x + y) rfl ha hb

theorem eval_not {inner : Expr} {b : Bool} (hb : inner.eval instruction s = (.ok (.ofBool b), s₁)) :
    inner.not.eval instruction s = (.ok (.ofBool !b), s₁) := by
  have hnot : (UnaryOp.not.apply (.ofBool b)) = .ofBool !b := by
    cases b <;> rfl
  rw [Expr.not, eval_unary hb, hnot]

theorem eval_and {p q : Bool} (hp : left.eval instruction s = (.ok (.ofBool p), s₁))
    (hq : right.eval instruction s₁ = (.ok (.ofBool q), s₂)) :
    (left.and right).eval instruction s = (.ok (.ofBool (p && q)), s₂) := by
  refine eval_binary hp hq (fun _ => rfl) ?_
  cases p <;> cases q <;> rfl

theorem toNat_ofBool_eq_one (b : Bool) : (Bits.ofBool b).toNat = 1 ↔ b = true := by
  cases b <;> decide

theorem eval_select_word {condition : Expr} {c : Bool}
    (hc : condition.eval instruction s = (.ok (.ofBool c), s₁))
    (ha : left.eval instruction s₁ = (.ok (word a), s₂))
    (hb : right.eval instruction s₂ = (.ok (word b), s₃)) :
    (select condition left right).eval instruction s = (.ok (word (if c then a else b)), s₃) := by
  rw [eval_select hc ha hb rfl]
  simp only [toNat_ofBool_eq_one]
  cases c <;> rfl

theorem eval_imm {format : Format} {n : Nat} {i : BitVec n} {hwidens : n ≤ 32}
    (hoperand : instruction.operand format .imm = .ok (immediate i hwidens)) :
    (imm format).eval instruction s = (.ok (word (i.signExtend 32)), s) :=
  eval_signExtend (eval_operand hoperand) Xlen.rv32.bits_le hwidens

theorem eval_misaligned {target : Expr} {t : BitVec 32}
    (ht : target.eval instruction s = (.ok (word t), s₁)) :
    (misaligned target).eval instruction s = (.ok (.ofBool (decide (t.toNat % 4 ≠ 0))), s₁) := by
  have hlow : ((Expr.extract 0 2 target).equal (.literal ⟨2, 0#2, by decide⟩)).eval instruction s =
      (.ok (.ofBool (t.extractLsb' 0 2 == 0#2)), s₁) :=
    eval_binary (eval_extract ht (by decide)) rfl (fun _ => rfl) rfl
  have hbits : (!(t.extractLsb' 0 2 == 0#2)) = decide (t.toNat % 4 ≠ 0) := by
    have hzero : t.extractLsb' 0 2 = 0#2 ↔ t.toNat % 4 = 0 := by
      rw [← BitVec.toNat_inj, BitVec.extractLsb'_toNat]
      rfl
    rw [Bool.eq_iff_iff]
    simp [hzero]
  rw [misaligned, eval_not hlow, hbits]

end Operators

section Hart

variable {format : Format} {hart hart₁ : Hart .rv32} {instruction : Instruction}
  {value : Expr} {v : BitVec 32}

theorem eval_pc : Expr.pc.eval instruction hart = (.ok (word (view hart).pc), hart) := rfl

theorem eval_readRegister {field : Field} {id : BitVec 5}
    (hoperand : instruction.operand format field = .ok (registerId id)) :
    (readRegister format field).eval instruction hart = (.ok (word ((view hart).registers id.toFin)), hart) := by
  have hwidth : (registerId id).width = 5 := rfl
  obtain ⟨_, hget⟩ := Hart.getRegister_eq hwidth hart
  exact eval_register (eval_operand hoperand) rfl hget

theorem eval_nextPc (hbytes : instruction.bytes = instructionBytes) :
    nextPc.eval instruction hart = (.ok (word ((view hart).pc + 4#32)), hart) := by
  refine eval_add eval_pc ?_
  rw [eval, hbytes]
  rfl

theorem eval_target {n : Nat} {i : BitVec n} {hwidens : n ≤ 32}
    (hoperand : instruction.operand format .imm = .ok (immediate i hwidens)) :
    (target format).eval instruction hart = (.ok (word ((view hart).pc + i.signExtend 32)), hart) :=
  eval_add eval_pc (eval_imm hoperand)

theorem execute_setPc (hvalue : value.eval instruction hart = (.ok (word v), hart₁)) :
    (Statement.setPc value).execute instruction hart = (.ok (), hart₁.putPc v.toNat) :=
  Statement.execute_setPc hvalue rfl rfl

theorem execute_setRd {id : BitVec 5}
    (hoperand : instruction.operand format .rd = .ok (registerId id))
    (hvalue : value.eval instruction hart = (.ok (word v), hart₁)) :
    (setRd format value).execute instruction hart = (.ok (), hart₁.putRegister id.toFin v.toNat) := by
  have hwidth : (registerId id).width = 5 := rfl
  obtain ⟨_, hset⟩ := Hart.setRegister_eq hwidth (word v) hart₁
  exact Statement.execute_setRegister (eval_operand hoperand) rfl hvalue rfl hset

theorem execute_raiseIf {condition : Expr} {c : Bool} (cause : Cause)
    (hcondition : condition.eval instruction hart = (.ok (.ofBool c), hart₁)) :
    (Statement.raiseIf condition cause).execute instruction hart =
      (.ok (), if c then hart₁.raise cause else hart₁) := by
  rw [Statement.execute_raiseIf hcondition rfl]
  simp only [toNat_ofBool_eq_one]

@[simp] theorem view_putPc : view (hart.putPc v.toNat) = { view hart with pc := v } := by
  rw [view, Hart.view_putPc]
  exact congrArg (fun pc => { view hart with pc }) (BitVec.ofNat_toNat 32 v)

@[simp] theorem view_putRegister (index : Fin 32) :
    view (hart.putRegister index v.toNat) = (view hart).setRegister index v := by
  rw [view, Hart.view_putRegister]
  exact congrArg ((view hart).setRegister index) (BitVec.ofNat_toNat 32 v)

/-- A formula that computes a value for `rd`. -/
theorem execute_compute {w : Word} (hrd : (w.instruction format).operand format .rd = .ok (registerId w.rd))
    (hvalue : value.eval (w.instruction format) hart = (.ok (word v), hart₁)) :
    ∃ after, (compute format value).execute (w.instruction format) hart = (.ok (), after) ∧
      view after = { (view hart₁).setRegister w.rd.toFin v with pc := (view hart₁).pc + 4#32 } := by
  have hset := execute_setRd hrd hvalue
  have hadvance : advance.execute (w.instruction format) (hart₁.putRegister w.rd.toFin v.toNat) = (.ok (), _) :=
    execute_setPc (eval_nextPc rfl)
  refine ⟨_, Statement.executeAll_cons hset (Statement.executeAll_cons hadvance rfl), ?_⟩
  rw [view_putPc, view_putRegister]
  rfl

end Hart

end RiscvSemantics.Rv32
