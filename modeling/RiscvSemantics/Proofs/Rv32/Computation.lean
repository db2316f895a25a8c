import RiscvSemantics.Proofs.Bits.Integer
import RiscvSemantics.Proofs.Rv32.Contract
import RiscvSemantics.Proofs.Rv32.Evaluation
import RiscvSemantics.Proofs.Rv32.Fields

namespace RiscvSemantics.Rv32

open RiscvSemantics.Expr

/-- The instructions that compute a value from registers, an immediate and the program
    counter. -/
def computations : List Opcode :=
  [.lui, .auipc, .addi, .slti, .sltiu, .xori, .ori, .andi, .slli, .srli, .srai, .add, .sub, .sll, .slt,
    .sltu, .xor, .srl, .sra, .or, .and, .mul, .mulh, .mulhsu, .mulhu, .div, .divu, .rem, .remu]

/-- The immediate of twenty bits, which counts 4096 times. -/
def Word.upperImmediate (w : Word) : Int :=
  4096 * w.field 12 20

/-- The number that an instruction computes when `rs1` holds `a` and the second operand is
    `b`. A register keeps its low 32 bits. Only the low five bits of a shift amount count,
    quotients are rounded toward zero, and the high half of a product is the product without
    its low 32 bits. -/
def Opcode.result (opcode : Opcode) (pc a b : BitVec 32) (upper : Int) : Int :=
  match opcode with
  | .lui => upper
  | .auipc => pc.toNat + upper
  | .addi | .add => a.toInt + b.toInt
  | .sub => a.toInt - b.toInt
  | .slti | .slt => if a.toInt < b.toInt then 1 else 0
  | .sltiu | .sltu => if a.toNat < b.toNat then 1 else 0
  | .xori | .xor => (a.toNat ^^^ b.toNat : Nat)
  | .ori | .or => (a.toNat ||| b.toNat : Nat)
  | .andi | .and => (a.toNat &&& b.toNat : Nat)
  | .slli | .sll => a.toNat * 2 ^ (b.toNat % 32)
  | .srli | .srl => a.toNat / 2 ^ (b.toNat % 32)
  | .srai | .sra => a.toInt / 2 ^ (b.toNat % 32)
  | .mul => a.toInt * b.toInt
  | .mulh => a.toInt * b.toInt / 4294967296
  | .mulhsu => a.toInt * b.toNat / 4294967296
  | .mulhu => a.toNat * b.toNat / 4294967296
  | .div =>
    if b.toInt = 0 then -1
    else if a.toInt = -2147483648 ∧ b.toInt = -1 then -2147483648
    else a.toInt.tdiv b.toInt
  | .divu => if b.toNat = 0 then 4294967295 else a.toNat / b.toNat
  | .rem =>
    if b.toInt = 0 then a.toInt
    else if a.toInt = -2147483648 ∧ b.toInt = -1 then 0
    else a.toInt.tmod b.toInt
  | .remu => if b.toNat = 0 then a.toNat else a.toNat % b.toNat
  | _ => 0

/-- The second operand of a computation: a register or the immediate, which stands where the
    offset of a load does. -/
def Word.secondOperand (w : Word) (opcode : Opcode) (view : Hart.View 32) : BitVec 32 :=
  if opcode.format = .R then view.registers w.rs2.toFin else BitVec.ofInt 32 w.loadOffset

/-- The value that a computation in a word sets. -/
def Word.computed (w : Word) (opcode : Opcode) (view : Hart.View 32) : BitVec 32 :=
  BitVec.ofInt 32 (opcode.result view.pc (view.registers w.rs1.toFin) (w.secondOperand opcode view)
    w.upperImmediate)

section Results

variable {pc a b : BitVec 32} {upper : Int}

theorem result_div :
    (if b.toNat = 0 then BitVec.allOnes 32 else a.sdiv b) =
      BitVec.ofInt 32 (Opcode.div.result pc a b upper) := by
  simp only [Opcode.result, Bits.toInt_eq_zero_iff]
  by_cases hzero : b.toNat = 0
  · rw [if_pos hzero, if_pos hzero]
    rfl
  · rw [if_neg hzero, if_neg hzero, Bits.sdiv_eq_ofInt]
    split
    · next hoverflow =>
      rw [hoverflow.1, hoverflow.2]
      rfl
    · rfl

theorem result_divu :
    (if b.toNat = 0 then BitVec.allOnes 32 else a / b) =
      BitVec.ofInt 32 (Opcode.divu.result pc a b upper) := by
  simp only [Opcode.result]
  by_cases hzero : b.toNat = 0
  · rw [if_pos hzero, if_pos hzero]
    rfl
  · rw [if_neg hzero, if_neg hzero, Bits.udiv_eq_ofInt]

theorem result_rem : a.srem b = BitVec.ofInt 32 (Opcode.rem.result pc a b upper) := by
  rw [Bits.srem_eq_ofInt]
  simp only [Opcode.result]
  split
  · next hzero => rw [hzero, Int.tmod_zero]
  · split
    · next hoverflow =>
      rw [hoverflow.1, hoverflow.2]
      rfl
    · rfl

theorem result_remu : a % b = BitVec.ofInt 32 (Opcode.remu.result pc a b upper) := by
  rw [Bits.umod_eq_ofInt]
  simp only [Opcode.result]
  split
  · next hzero => rw [hzero, Int.natCast_zero, Int.emod_zero]
  · rfl

end Results

section Shifts

variable {a b : BitVec 32} {amount : BitVec 5} (hamount : amount.toNat = b.toNat % 32)

include hamount

/-! The amount of a shift is below the register width, so no shift empties a register. -/

theorem apply_shiftLeft : BinaryOp.shiftLeft.apply (word a) ⟨5, amount, registerId_le⟩ =
    .ok (word (BitVec.ofInt 32 (a.toNat * 2 ^ (b.toNat % 32)))) := by
  rw [← hamount, ← Bits.shiftLeft_eq_ofInt]
  exact congrArg Except.ok (if_pos amount.isLt)

theorem apply_shiftRight : BinaryOp.shiftRight.apply (word a) ⟨5, amount, registerId_le⟩ =
    .ok (word (BitVec.ofInt 32 (a.toNat / 2 ^ (b.toNat % 32)))) := by
  rw [← hamount, ← Bits.shiftRight_eq_ofInt]
  exact congrArg Except.ok (if_pos amount.isLt)

theorem apply_shiftRightSigned : BinaryOp.shiftRightSigned.apply (word a) ⟨5, amount, registerId_le⟩ =
    .ok (word (BitVec.ofInt 32 (a.toInt / 2 ^ (b.toNat % 32)))) := by
  have hmin : min amount.toNat (32 - 1) = amount.toNat := Nat.min_eq_left (Nat.le_sub_one_of_lt amount.isLt)
  rw [← hamount, ← Bits.sshiftRight_eq_ofInt, ← hmin]
  rfl

end Shifts

section Operators

variable {σ ε : Type} [Machine σ ε] {instruction : Instruction} {s s₁ s₂ : σ} {left right : Expr}
  {op : BinaryOp} {opcode : Opcode} {pc a b : BitVec 32} {upper : Int}

/-- An operator with operands of register width gives what an instruction computes. -/
theorem eval_result {combination : Combination} (f : {n : Nat} → BitVec n → BitVec n → BitVec n)
    (hop : op.apply = Bits.combine combination f) (hf : f a b = BitVec.ofInt 32 (opcode.result pc a b upper))
    (ha : left.eval instruction s = (.ok (word a), s₁))
    (hb : right.eval instruction s₁ = (.ok (word b), s₂)) :
    (binary op left right).eval instruction s =
      (.ok (word (BitVec.ofInt 32 (opcode.result pc a b upper))), s₂) := by
  rw [← hf]
  exact eval_combine f hop ha hb

/-- A comparison gives one bit, which is widened. -/
theorem eval_comparison (f : {n : Nat} → BitVec n → BitVec n → Bool) (hop : op.apply = Bits.compare f)
    (hf : (if f a b then 1 else 0) = opcode.result pc a b upper)
    (ha : left.eval instruction s = (.ok (word a), s₁))
    (hb : right.eval instruction s₁ = (.ok (word b), s₂)) :
    (zeroExtend 32 (binary op left right)).eval instruction s =
      (.ok (word (BitVec.ofInt 32 (opcode.result pc a b upper))), s₂) := by
  rw [← hf, ← Bits.setWidth_ofBool]
  have hwidens : (Bits.ofBool (f a b)).width ≤ 32 := Nat.le_of_ble_eq_true rfl
  exact eval_zeroExtend (eval_compare f hop ha hb) Xlen.rv32.bits_le hwidens

end Operators

section Hart

variable (w : Word) (hart : Hart .rv32)

theorem eval_immI :
    (imm .I).eval (w.instruction .I) hart = (.ok (word (BitVec.ofInt 32 w.loadOffset)), hart) := by
  have himm : (w.instruction .I).operand .I .imm = .ok (immediate w.immI (by decide)) := rfl
  have heval : (imm .I).eval (w.instruction .I) hart = (.ok (word (w.immI.signExtend 32)), hart) :=
    eval_imm himm
  rw [BitVec.signExtend, w.toInt_immI] at heval
  exact heval

theorem eval_upper :
    upper.eval (w.instruction .U) hart = (.ok (word (BitVec.ofInt 32 w.upperImmediate)), hart) := by
  have hoperand : (w.instruction .U).operand .U .imm = .ok (immediate w.immU (by decide)) := rfl
  have hzeros : (Expr.literal Word.belowUpper).eval (w.instruction .U) hart =
      (.ok Word.belowUpper, hart) := rfl
  have hvalue : w.immU ++ 0#12 = BitVec.ofInt 32 w.upperImmediate := by
    apply BitVec.eq_of_toNat_eq
    rw [toNat_append, BitVec.toNat_ofInt, BitVec.toNat_ofNat, w.toNat_immU, Word.upperImmediate,
      Word.field, BitVec.extractLsb'_toNat]
    omega
  rw [← hvalue]
  exact eval_concat (eval_operand hoperand) hzeros Xlen.rv32.bits_le

theorem eval_shiftAmount : ∃ amount : BitVec 5,
    shiftAmount.eval (w.instruction .I) hart = (.ok ⟨5, amount, registerId_le⟩, hart) ∧
      amount.toNat = (BitVec.ofInt 32 w.loadOffset).toNat % 32 := by
  have hoperand : (w.instruction .I).operand .I .imm = .ok (immediate w.immI (by decide)) := rfl
  refine ⟨w.immI.extractLsb' 0 5, eval_extract (eval_operand hoperand) registerId_le, ?_⟩
  rw [BitVec.extractLsb'_toNat, BitVec.toNat_ofInt, ← w.toInt_immI, BitVec.toInt_eq_toNat_cond, Nat.shiftRight_zero]
  split <;> omega

theorem eval_shiftRegister : ∃ amount : BitVec 5,
    shiftRegister.eval (w.instruction .R) hart = (.ok ⟨5, amount, registerId_le⟩, hart) ∧
      amount.toNat = ((view hart).registers w.rs2.toFin).toNat % 32 := by
  have hrs2 : (w.instruction .R).operand .R .rs2 = .ok (registerId w.rs2) := rfl
  refine ⟨_, eval_extract (eval_readRegister hrs2) registerId_le, ?_⟩
  exact BitVec.extractLsb'_toNat ..

theorem operand_rd {opcode : Opcode} (hcomputation : opcode ∈ computations) :
    (w.instruction opcode.format).operand opcode.format .rd = .ok (registerId w.rd) := by
  have hlayouts : ∀ opcode ∈ computations, opcode.format ≠ .S ∧ opcode.format ≠ .B := by
    decide
  obtain ⟨hnotS, hnotB⟩ := hlayouts opcode hcomputation
  cases hformat : opcode.format with
  | R | I | U | J => rfl
  | S => exact absurd hformat hnotS
  | B => exact absurd hformat hnotB

/-- Every computational instruction computes its value from what the hart holds before. -/
theorem semantics_computation {opcode : Opcode} (hcomputation : opcode ∈ computations) :
    ∃ value, opcode.semantics = compute opcode.format value ∧
      value.eval (w.instruction opcode.format) hart = (.ok (word (w.computed opcode (view hart))), hart) := by
  let registers := (view hart).registers
  have hupper := eval_upper w hart
  have haI : (rs1 .I).eval (w.instruction .I) hart = (.ok (word (registers w.rs1.toFin)), hart) :=
    eval_readRegister rfl
  have haR : (rs1 .R).eval (w.instruction .R) hart = (.ok (word (registers w.rs1.toFin)), hart) :=
    eval_readRegister rfl
  have himm := eval_immI w hart
  have hrs2 : (rs2 .R).eval (w.instruction .R) hart = (.ok (word (registers w.rs2.toFin)), hart) :=
    eval_readRegister rfl
  obtain ⟨amountI, hamountI, hlowI⟩ := eval_shiftAmount w hart
  obtain ⟨amountR, hamountR, hlowR⟩ := eval_shiftRegister w hart
  have hsigned (a b : BitVec 32) :
      (if a.slt b then (1 : Int) else 0) = if a.toInt < b.toInt then 1 else 0 := by
    simp only [BitVec.slt_iff_toInt_lt]
  have hunsigned (a b : BitVec 32) :
      (if a.ult b then (1 : Int) else 0) = if a.toNat < b.toNat then 1 else 0 := by
    simp only [BitVec.ult_iff_toNat_lt]
  cases opcode with
  | lui => exact ⟨_, rfl, hupper⟩
  | auipc =>
    refine ⟨_, rfl, ?_⟩
    rw [Word.computed, Opcode.result, ← Bits.add_ofInt]
    exact eval_add eval_pc hupper
  | addi => exact ⟨_, rfl, eval_result (fun x y => x + y) rfl (Bits.add_eq_ofInt ..) haI himm⟩
  | slti => exact ⟨_, rfl, eval_comparison (fun x y => x.slt y) rfl (hsigned ..) haI himm⟩
  | sltiu => exact ⟨_, rfl, eval_comparison (fun x y => x.ult y) rfl (hunsigned ..) haI himm⟩
  | xori => exact ⟨_, rfl, eval_result (fun x y => x ^^^ y) rfl (Bits.xor_eq_ofInt ..) haI himm⟩
  | ori => exact ⟨_, rfl, eval_result (fun x y => x ||| y) rfl (Bits.or_eq_ofInt ..) haI himm⟩
  | andi => exact ⟨_, rfl, eval_result (fun x y => x &&& y) rfl (Bits.and_eq_ofInt ..) haI himm⟩
  | slli => exact ⟨_, rfl, eval_binary haI hamountI nofun (apply_shiftLeft hlowI)⟩
  | srli => exact ⟨_, rfl, eval_binary haI hamountI nofun (apply_shiftRight hlowI)⟩
  | srai => exact ⟨_, rfl, eval_binary haI hamountI nofun (apply_shiftRightSigned hlowI)⟩
  | add => exact ⟨_, rfl, eval_result (fun x y => x + y) rfl (Bits.add_eq_ofInt ..) haR hrs2⟩
  | sub => exact ⟨_, rfl, eval_result (fun x y => x - y) rfl (Bits.sub_eq_ofInt ..) haR hrs2⟩
  | sll => exact ⟨_, rfl, eval_binary haR hamountR nofun (apply_shiftLeft hlowR)⟩
  | slt => exact ⟨_, rfl, eval_comparison (fun x y => x.slt y) rfl (hsigned ..) haR hrs2⟩
  | sltu => exact ⟨_, rfl, eval_comparison (fun x y => x.ult y) rfl (hunsigned ..) haR hrs2⟩
  | xor => exact ⟨_, rfl, eval_result (fun x y => x ^^^ y) rfl (Bits.xor_eq_ofInt ..) haR hrs2⟩
  | srl => exact ⟨_, rfl, eval_binary haR hamountR nofun (apply_shiftRight hlowR)⟩
  | sra => exact ⟨_, rfl, eval_binary haR hamountR nofun (apply_shiftRightSigned hlowR)⟩
  | or => exact ⟨_, rfl, eval_result (fun x y => x ||| y) rfl (Bits.or_eq_ofInt ..) haR hrs2⟩
  | and => exact ⟨_, rfl, eval_result (fun x y => x &&& y) rfl (Bits.and_eq_ofInt ..) haR hrs2⟩
  | mul => exact ⟨_, rfl, eval_result (fun x y => x * y) rfl (Bits.mul_eq_ofInt ..) haR hrs2⟩
  | mulh => exact ⟨_, rfl, eval_result (fun x y => Bits.highHalf _ (x.toInt * y.toInt)) rfl
      (Bits.highHalf_eq_ofInt ..) haR hrs2⟩
  | mulhsu => exact ⟨_, rfl, eval_result (fun x y => Bits.highHalf _ (x.toInt * y.toNat)) rfl
      (Bits.highHalf_eq_ofInt ..) haR hrs2⟩
  | mulhu => exact ⟨_, rfl, eval_result (fun x y => Bits.highHalf _ (x.toNat * y.toNat)) rfl
      (Bits.highHalf_eq_ofInt ..) haR hrs2⟩
  | div => exact ⟨_, rfl, eval_result (fun x y => if y.toNat = 0 then BitVec.allOnes _ else x.sdiv y) rfl
      result_div haR hrs2⟩
  | divu => exact ⟨_, rfl, eval_result (fun x y => if y.toNat = 0 then BitVec.allOnes _ else x / y) rfl
      result_divu haR hrs2⟩
  | rem => exact ⟨_, rfl, eval_result (fun x y => x.srem y) rfl result_rem haR hrs2⟩
  | remu => exact ⟨_, rfl, eval_result (fun x y => x % y) rfl result_remu haR hrs2⟩
  | jal | beq | bne | blt | bge | bltu | bgeu | lb | lh | lw | lbu | lhu | sb | sh | sw =>
    exact absurd hcomputation (by decide)

end Hart

/-- What a computational instruction in a word leaves behind: the value that it computes
    from the registers, the program counter and the immediate before it, in `rd`. It goes on
    to the next instruction and changes nothing else. -/
def Computes (w : Word) (opcode : Opcode) (before after : Hart.View 32) : Prop :=
  after = { before.setRegister w.rd.toFin (w.computed opcode before) with pc := before.pc + 4#32 }

/-- Every computational instruction sets `rd` to what the integers say, whatever registers it
    names. -/
theorem execute_computation {w : Word} {extensions : Extensions} {decoded : Decoded Opcode}
    (hart : Hart .rv32) (hdecode : decode w extensions = some decoded)
    (hcomputation : decoded.opcode ∈ computations) :
    ∃ after, (decoded.opcode.semantics.execute ⟨decoded.operands, instructionBytes⟩ :
        Interpretation (Hart .rv32) Violation Unit) hart = (.ok (), after) ∧
      Computes w decoded.opcode (view hart) (view after) := by
  obtain ⟨opcode, rfl⟩ := eq_of_decode hdecode
  obtain ⟨value, hsemantics, hvalue⟩ := semantics_computation w hart hcomputation
  obtain ⟨after, hexecute, hafter⟩ := execute_compute (operand_rd w hcomputation) hvalue
  rw [hsemantics]
  exact ⟨after, hexecute, hafter⟩

/-- `div x2, x2, x3` with -7 and 2 rounds toward zero, and the dividend is overwritten. -/
theorem execute_computation_in_place :
    decode 0x02314133#32 ⟨true, false, false, false, false⟩ = some ⟨.div, Word.operands 0x02314133#32 .R⟩ ∧
      Opcode.div ∈ computations ∧
      ∃ after, (Opcode.div.semantics.execute ⟨Word.operands 0x02314133#32 .R, instructionBytes⟩ :
          Interpretation (Hart .rv32) Violation Unit)
          (((Hart.new .rv32 16 Extensions.none).putRegister 2 0xfffffff9).putRegister 3 2) = (.ok (), after) ∧
        (view after).registers 2 = BitVec.ofInt 32 (-3) ∧ (view after).pc = 4#32 ∧
        (view after).trap = none := by
  have hdecode : decode 0x02314133#32 ⟨true, false, false, false, false⟩ =
      some ⟨.div, Word.operands 0x02314133#32 .R⟩ := by
    decide
  have hdiv : Opcode.div ∈ computations := by
    decide
  obtain ⟨after, hexecute, hcomputes⟩ := execute_computation
    (((Hart.new .rv32 16 Extensions.none).putRegister 2 0xfffffff9).putRegister 3 2) hdecode hdiv
  refine ⟨hdecode, hdiv, after, hexecute, ?_, ?_, ?_⟩
  · rw [hcomputes]
    decide
  · rw [hcomputes]
    decide
  · rw [hcomputes]
    rfl

end RiscvSemantics.Rv32
