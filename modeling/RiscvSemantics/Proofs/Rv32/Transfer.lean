import RiscvSemantics.Proofs.Rv32.Contract
import RiscvSemantics.Proofs.Rv32.Evaluation
import RiscvSemantics.Proofs.Rv32.Fields

namespace RiscvSemantics.Rv32

def branches : List Opcode :=
  [.beq, .bne, .blt, .bge, .bltu, .bgeu]

/-- Whether a branch or jump is taken when `rs1` and `rs2` hold these values. -/
def Opcode.Takes (opcode : Opcode) (a b : BitVec 32) : Prop :=
  match opcode with
  | .beq => a = b
  | .bne => a ≠ b
  | .blt => a.toInt < b.toInt
  | .bge => b.toInt ≤ a.toInt
  | .bltu => a.toNat < b.toNat
  | .bgeu => b.toNat ≤ a.toNat
  | .jal => True
  | _ => False

/-- Where a branch or jump goes from an address. -/
def Word.destination (w : Word) (opcode : Opcode) (pc : BitVec 32) : BitVec 32 :=
  BitVec.ofInt 32 (pc.toNat + if opcode = .jal then w.jumpOffset else w.branchOffset)

/-- What a branch or jump in a word leaves behind. One that is not taken goes on to the
    next instruction, wherever it would have gone. One that is taken goes to its
    destination, and a jump links. Where the destination is no place for an instruction,
    all that changes is that a trap is pending. -/
structure Transfers (w : Word) (opcode : Opcode) (before after : Hart.View 32) : Prop where
  not_taken : ¬opcode.Takes (before.registers w.rs1.toFin) (before.registers w.rs2.toFin) →
    after = { before with pc := before.pc + 4#32 }
  taken : opcode.Takes (before.registers w.rs1.toFin) (before.registers w.rs2.toFin) →
    (w.destination opcode before.pc).toNat % 4 = 0 →
      after =
        if opcode = .jal then
          { before.setRegister w.rd.toFin (before.pc + 4#32) with pc := w.destination .jal before.pc }
        else { before with pc := w.destination opcode before.pc }
  misaligned : opcode.Takes (before.registers w.rs1.toFin) (before.registers w.rs2.toFin) →
    (w.destination opcode before.pc).toNat % 4 ≠ 0 → after = before.raise .misalignedPc

/-- The registers of a branch are compared, also once it has trapped. -/
theorem eval_compareRegisters (op : BinaryOp) (f : {n : Nat} → BitVec n → BitVec n → Bool)
    (hop : op.apply = Bits.compare f) (w : Word) (hart : Hart .rv32) (trap : Option Cause) :
    (Expr.binary op (rs1 .B) (rs2 .B)).eval (w.instruction .B) { hart with trap } =
      (.ok (.ofBool (f ((view hart).registers w.rs1.toFin) ((view hart).registers w.rs2.toFin))),
        { hart with trap }) :=
  eval_compare f hop (eval_readRegister rfl) (eval_readRegister rfl)

/-- Each branch has a condition that tells whether it is taken. -/
theorem semantics_branch {opcode : Opcode} (hbranch : opcode ∈ branches) (w : Word) (hart : Hart .rv32) :
    ∃ condition taken, opcode.semantics = branch condition ∧
      (taken = true ↔ opcode.Takes ((view hart).registers w.rs1.toFin) ((view hart).registers w.rs2.toFin)) ∧
      ∀ trap, condition.eval (w.instruction .B) { hart with trap } =
        (.ok (.ofBool taken), { hart with trap }) := by
  have hequal := eval_compareRegisters .equal (fun x y => x == y) rfl w hart
  have hsigned := eval_compareRegisters .lessSigned (fun x y => x.slt y) rfl w hart
  have hunsigned := eval_compareRegisters .lessUnsigned (fun x y => x.ult y) rfl w hart
  simp only [branches, List.mem_cons, List.not_mem_nil, or_false] at hbranch
  obtain rfl | rfl | rfl | rfl | rfl | rfl := hbranch
  · exact ⟨_, _, rfl, beq_iff_eq, hequal⟩
  · exact ⟨_, _, rfl, by simp [Opcode.Takes], fun trap => eval_not (hequal trap)⟩
  · exact ⟨_, _, rfl, BitVec.slt_iff_toInt_lt, hsigned⟩
  · exact ⟨_, _, rfl, by simp [Opcode.Takes, BitVec.slt], fun trap => eval_not (hsigned trap)⟩
  · exact ⟨_, _, rfl, by simp [Opcode.Takes, BitVec.ult], hunsigned⟩
  · exact ⟨_, _, rfl, by simp [Opcode.Takes, BitVec.ult], fun trap => eval_not (hunsigned trap)⟩

/-- A formula for a branch goes to the target, traps or goes on, as its condition and
    the target come out. That the hart has trapped changes neither. -/
theorem execute_branch {instruction : Instruction} {hart : Hart .rv32} {condition : Expr} {taken : Bool}
    {t : BitVec 32} (hbytes : instruction.bytes = instructionBytes)
    (hcondition : ∀ trap, condition.eval instruction { hart with trap } =
      (.ok (.ofBool taken), { hart with trap }))
    (htarget : ∀ trap, (target .B).eval instruction { hart with trap } = (.ok (word t), { hart with trap })) :
    ∃ after, (branch condition).execute instruction hart = (.ok (), after) ∧
      view after =
        if taken then
          if t.toNat % 4 = 0 then { view hart with pc := t } else (view hart).raise .misalignedPc
        else { view hart with pc := (view hart).pc + 4#32 } := by
  have hraise := execute_raiseIf .misalignedPc
    (eval_and (hcondition hart.trap) (eval_misaligned (htarget hart.trap)))
  -- The second statement meets a hart that differs at most in its trap.
  obtain ⟨trap, htrap⟩ : ∃ trap, (if (taken && decide (t.toNat % 4 ≠ 0)) = true then
      hart.raise .misalignedPc else hart) = { hart with trap } := by
    split
    · exact ⟨_, rfl⟩
    · exact ⟨_, rfl⟩
  have hset := execute_setPc (eval_select_word (hcondition trap)
    (eval_select_word (eval_misaligned (htarget trap)) eval_pc (htarget trap)) (eval_nextPc hbytes))
  rw [← htrap] at hset
  refine ⟨_, Statement.executeAll_cons hraise (Statement.executeAll_cons hset rfl), ?_⟩
  rw [view_putPc]
  cases taken with
  | false => rfl
  | true =>
    by_cases haligned : t.toNat % 4 = 0
    · simp only [haligned, ne_eq, not_true_eq_false, decide_false, Bool.and_false, Bool.false_eq_true,
        if_false, if_true]
    · simp only [haligned, ne_eq, not_false_eq_true, decide_true, Bool.and_true, if_true, if_false]
      rfl

/-- The formula of a jump goes to the target and links, or traps. Its later statements
    come to the same target although the earlier ones have changed the hart. -/
theorem execute_jump {w : Word} {hart : Hart .rv32} {t : BitVec 32}
    (htarget : ∀ hart', (view hart').pc = (view hart).pc →
      (target .J).eval (w.instruction .J) hart' = (.ok (word t), hart')) :
    ∃ after, jump.execute (w.instruction .J) hart = (.ok (), after) ∧
      view after =
        if t.toNat % 4 = 0 then
          { (view hart).setRegister w.rd.toFin ((view hart).pc + 4#32) with pc := t }
        else (view hart).raise .misalignedPc := by
  have hraise := execute_raiseIf .misalignedPc (eval_misaligned (htarget hart rfl))
  -- All that the later statements need of the hart before them is its program counter.
  generalize hhart₁ : (if decide (t.toNat % 4 ≠ 0) = true then hart.raise .misalignedPc else hart) = hart₁
    at hraise
  have hpc₁ : (view hart₁).pc = (view hart).pc := by
    rw [← hhart₁]
    split
    · rfl
    · rfl
  have hrd : (w.instruction .J).operand .J .rd = .ok (registerId w.rd) := rfl
  have hset := execute_setRd hrd
    (eval_select_word (eval_misaligned (htarget hart₁ hpc₁)) (eval_readRegister hrd) (eval_nextPc rfl))
  generalize hhart₂ : hart₁.putRegister w.rd.toFin _ = hart₂ at hset
  have hview₂ := congrArg view hhart₂
  rw [view_putRegister] at hview₂
  have hpc₂ : (view hart₂).pc = (view hart).pc := by
    rw [← hview₂]
    exact hpc₁
  have hgo := execute_setPc (eval_select_word (eval_misaligned (htarget hart₂ hpc₂)) eval_pc (htarget hart₂ hpc₂))
  refine ⟨_, Statement.executeAll_cons hraise (Statement.executeAll_cons hset
    (Statement.executeAll_cons hgo rfl)), ?_⟩
  rw [view_putPc, ← hview₂, hpc₁]
  by_cases haligned : t.toNat % 4 = 0
  · simp only [haligned, ne_eq, not_true_eq_false, decide_false, Bool.false_eq_true, if_false, if_true]
      at hhart₁ ⊢
    rw [hhart₁]
  · simp only [haligned, ne_eq, not_false_eq_true, decide_true, if_true, if_false] at hhart₁ ⊢
    rw [Hart.View.setRegister_registers, ← hhart₁]
    rfl

theorem eval_jumpTarget (w : Word) (hart hart' : Hart .rv32) (hpc : (view hart').pc = (view hart).pc) :
    (target .J).eval (w.instruction .J) hart' = (.ok (word (w.destination .jal (view hart).pc)), hart') := by
  have hoperand : (w.instruction .J).operand .J .imm = .ok (immediate w.immJ (by decide)) := rfl
  rw [eval_target hoperand, Word.add_signExtend, Word.toInt_immJ, hpc]
  rfl

theorem eval_branchTarget {opcode : Opcode} (hbranch : opcode ∈ branches) (w : Word) (hart : Hart .rv32)
    (trap : Option Cause) :
    (target .B).eval (w.instruction .B) { hart with trap } =
      (.ok (word (w.destination opcode (view hart).pc)), { hart with trap }) := by
  have hjump : opcode ≠ .jal := fun h => by subst h; exact absurd hbranch (by decide)
  have hoperand : (w.instruction .B).operand .B .imm = .ok (immediate w.immB (by decide)) := rfl
  rw [eval_target hoperand, Word.add_signExtend, Word.toInt_immB, Word.destination, if_neg hjump]
  rfl

theorem Transfers.jump (w : Word) (hart : Hart .rv32) :
    ∃ after, jump.execute (w.instruction .J) hart = (.ok (), after) ∧
      Transfers w .jal (view hart) (view after) := by
  obtain ⟨after, hexecute, hafter⟩ := execute_jump (eval_jumpTarget w hart)
  refine ⟨after, hexecute, fun hnot => absurd trivial hnot, fun _ haligned => ?_, fun _ hmisaligned => ?_⟩
  · rw [hafter, if_pos haligned, if_pos rfl]
  · rw [hafter, if_neg hmisaligned]

theorem Transfers.branch {opcode : Opcode} (hbranch : opcode ∈ branches) (w : Word) (hart : Hart .rv32) :
    ∃ after, opcode.semantics.execute (w.instruction .B) hart = (.ok (), after) ∧
      Transfers w opcode (view hart) (view after) := by
  have hjump : opcode ≠ .jal := fun h => by subst h; exact absurd hbranch (by decide)
  obtain ⟨condition, taken, hsemantics, htaken, hcondition⟩ := semantics_branch hbranch w hart
  obtain ⟨after, hexecute, hafter⟩ := execute_branch rfl hcondition (eval_branchTarget hbranch w hart)
  rw [hsemantics]
  refine ⟨after, hexecute, fun hnot => ?_, fun htake haligned => ?_, fun htake hmisaligned => ?_⟩
  · rw [hafter, if_neg (mt htaken.mp hnot)]
  · rw [hafter, if_pos (htaken.mpr htake), if_pos haligned, if_neg hjump]
  · rw [hafter, if_pos (htaken.mpr htake), if_neg hmisaligned]

/-- Every branch and jump that a word can be goes where the instruction set says, on
    every hart. -/
theorem execute_transfer {w : Word} {extensions : Extensions} {decoded : Decoded Opcode} (hart : Hart .rv32)
    (hdecode : decode w extensions = some decoded)
    (htransfer : decoded.opcode ∈ branches ∨ decoded.opcode = .jal) :
    ∃ after, (decoded.opcode.semantics.execute ⟨decoded.operands, instructionBytes⟩ :
        Interpretation (Hart .rv32) Violation Unit) hart = (.ok (), after) ∧
      Transfers w decoded.opcode (view hart) (view after) := by
  obtain ⟨opcode, rfl⟩ := eq_of_decode hdecode
  rcases htransfer with hbranch | hjump
  · have hformat : opcode.format = .B := by
      simp only [branches, List.mem_cons, List.not_mem_nil, or_false] at hbranch
      obtain rfl | rfl | rfl | rfl | rfl | rfl := hbranch <;> rfl
    rw [hformat]
    exact Transfers.branch hbranch w hart
  · obtain rfl : opcode = .jal := hjump
    exact Transfers.jump w hart

/-- From address 0, `jal x1, 8` goes to 8 and leaves 4 in register 1, and `beq x0, x0, 2`
    traps where it is. -/
theorem execute_transfer_from_zero :
    decode 0x008000ef#32 Extensions.none = some ⟨.jal, Word.operands 0x008000ef#32 .J⟩ ∧
      decode 0x00000163#32 Extensions.none = some ⟨.beq, Word.operands 0x00000163#32 .B⟩ ∧
      (∃ after, (jump.execute ⟨Word.operands 0x008000ef#32 .J, instructionBytes⟩ :
          Interpretation (Hart .rv32) Violation Unit) (Hart.new .rv32 16 Extensions.none) = (.ok (), after) ∧
        (view after).pc = 8#32 ∧ (view after).registers 1 = 4#32 ∧ (view after).trap = none) ∧
      ∃ after, (Opcode.beq.semantics.execute ⟨Word.operands 0x00000163#32 .B, instructionBytes⟩ :
          Interpretation (Hart .rv32) Violation Unit) (Hart.new .rv32 16 Extensions.none) = (.ok (), after) ∧
        (view after).pc = 0#32 ∧ (view after).trap = some .misalignedPc := by
  have hjal : decode 0x008000ef#32 Extensions.none = some ⟨.jal, Word.operands 0x008000ef#32 .J⟩ := by
    decide
  have hbeq : decode 0x00000163#32 Extensions.none = some ⟨.beq, Word.operands 0x00000163#32 .B⟩ := by
    decide
  refine ⟨hjal, hbeq, ?_, ?_⟩
  · obtain ⟨after, hexecute, htransfers⟩ :=
      execute_transfer (Hart.new .rv32 16 Extensions.none) hjal (.inr rfl)
    have hview := htransfers.taken trivial (by decide)
    rw [if_pos rfl] at hview
    refine ⟨after, hexecute, ?_, ?_, ?_⟩
    · rw [hview]
      decide
    · rw [hview]
      decide
    · rw [hview]
      rfl
  · obtain ⟨after, hexecute, htransfers⟩ :=
      execute_transfer (Hart.new .rv32 16 Extensions.none) hbeq (.inl (by decide))
    have hview := htransfers.misaligned rfl (by decide)
    refine ⟨after, hexecute, ?_, ?_⟩
    · rw [hview]
      decide
    · rw [hview]
      rfl

end RiscvSemantics.Rv32
