import Mathlib.Algebra.BigOperators.Intervals
import Mathlib.Tactic.Ring
import RiscvSemantics.Proofs.Bits.Width
import RiscvSemantics.Proofs.Rv32.Contract
import RiscvSemantics.Proofs.Rv32.Evaluation
import RiscvSemantics.Proofs.Rv32.Fields

namespace RiscvSemantics.Rv32

def loads : List Opcode :=
  [.lb, .lh, .lw, .lbu, .lhu]

def stores : List Opcode :=
  [.sb, .sh, .sw]

/-- How many bytes a load or store moves. -/
def Opcode.accessBytes : Opcode → Nat
  | .lb | .lbu | .sb => 1
  | .lh | .lhu | .sh => 2
  | .lw | .sw => 4
  | _ => 0

/-- A number that is loaded, as the value of a register. -/
def Opcode.extendLoaded (opcode : Opcode) (loaded : Nat) : BitVec 32 :=
  match opcode with
  | .lb => (BitVec.ofNat 8 loaded).signExtend 32
  | .lh => (BitVec.ofNat 16 loaded).signExtend 32
  | .lbu => (BitVec.ofNat 8 loaded).zeroExtend 32
  | .lhu => (BitVec.ofNat 16 loaded).zeroExtend 32
  | _ => BitVec.ofNat 32 loaded

/-- The address of byte `k` of an access. -/
def byteAddress (base : BitVec 32) (offset : Int) (k : Nat) : BitVec 32 :=
  BitVec.ofInt 32 (base.toNat + offset + k)

/-- Where byte `k` of what a word loads lies. -/
def Word.loadAddress (w : Word) (view : Hart.View 32) (k : Nat) : Nat :=
  (byteAddress (view.registers w.rs1.toFin) w.loadOffset k).toNat

variable {w : Word} {format : Format} {hart : Hart .rv32}

theorem eval_effectiveAddress {n : Nat} {i : BitVec n} {hwidens : n ≤ 32} {offset : Int}
    (hrs1 : (w.instruction format).operand format .rs1 = .ok (registerId w.rs1))
    (himm : (w.instruction format).operand format .imm = .ok (immediate i hwidens))
    (hoffset : i.toInt = offset) (k : Nat) :
    (effectiveAddress format k).eval (w.instruction format) hart =
      (.ok (word (byteAddress ((view hart).registers w.rs1.toFin) offset k)), hart) := by
  have heval := eval_add (eval_add (eval_readRegister hrs1) (eval_imm himm))
    (rfl : (Expr.literal (word (BitVec.ofNat 32 k))).eval (w.instruction format) hart = _)
  rw [Word.add_signExtend, hoffset, ← BitVec.ofInt_natCast, ← BitVec.ofInt_add] at heval
  exact heval

/-- A byte that is read, and the trap that reading it leaves. -/
theorem eval_loadedByte (w : Word) (hart : Hart .rv32) (k : Nat) :
    ∃ byte hart₁, (loadedByte k).eval (w.instruction .I) hart = (.ok (.ofByte byte), hart₁) ∧
      byte.toNat = (view hart).byte (w.loadAddress (view hart) k) ∧
      view hart₁ =
        (view hart).raiseIf ((view hart).ram.size ≤ w.loadAddress (view hart) k) .loadFault := by
  have himm : (w.instruction .I).operand .I .imm = .ok (immediate w.immI (by decide)) := rfl
  have haddress : (effectiveAddress .I k).eval (w.instruction .I) hart = (.ok (word _), hart) :=
    eval_effectiveAddress rfl himm w.toInt_immI k
  obtain ⟨hbyte, hview⟩ := hart.load_eq (w.loadAddress (view hart) k)
  exact ⟨_, _, Expr.eval_memory haddress rfl rfl rfl, hbyte, hview⟩

/-- A byte that is appended to what has been read before. -/
theorem eval_appendByte {w : Word} {high : Expr} {a : Bits} {hart hart₁ : Hart .rv32}
    (hhigh : high.eval (w.instruction .I) hart = (.ok a, hart₁)) (hfits : a.width + 8 ≤ 64) (k : Nat) :
    ∃ b hart₂, (Expr.concat high (loadedByte k)).eval (w.instruction .I) hart = (.ok b, hart₂) ∧
      b.width = a.width + 8 ∧
      b.toNat = a.toNat * 256 + (view hart₁).byte (w.loadAddress (view hart₁) k) ∧
      view hart₂ =
        (view hart₁).raiseIf ((view hart₁).ram.size ≤ w.loadAddress (view hart₁) k) .loadFault := by
  obtain ⟨byte, hart₂, hbyte, hvalue, hview⟩ := eval_loadedByte w hart₁ k
  refine ⟨_, hart₂, Expr.eval_concat hhigh hbyte hfits, rfl, ?_, hview⟩
  change (a.value ++ byte).toNat = a.value.toNat * 256 + _
  rw [toNat_append, Nat.shiftLeft_eq, hvalue]

/-- Bytes that are read from the highest to the lowest, each appended to those before. -/
theorem eval_appendBytes (w : Word) (n : Nat) {high : Expr} {a : Bits} {hart hart₁ : Hart .rv32}
    (hhigh : high.eval (w.instruction .I) hart = (.ok a, hart₁)) (hfits : a.width + 8 * n ≤ 64) :
    ∃ b hart₂,
      ((List.range n).reverse.foldl (fun high k => .concat high (loadedByte k)) high).eval
        (w.instruction .I) hart = (.ok b, hart₂) ∧
      b.width = a.width + 8 * n ∧
      b.toNat = a.toNat * 256 ^ n +
        ∑ k ∈ Finset.range n, (view hart₁).byte (w.loadAddress (view hart₁) k) * 256 ^ k ∧
      view hart₂ = (view hart₁).raiseIf
        (∃ k < n, (view hart₁).ram.size ≤ w.loadAddress (view hart₁) k) .loadFault := by
  induction n generalizing high a hart₁ with
  | zero =>
    refine ⟨a, hart₁, hhigh, rfl, by simp, ?_⟩
    rw [Hart.View.raiseIf_of_neg _ _ (by simp)]
  | succ n ih =>
    obtain ⟨b, hart₂, hb, hwidth, hvalue, hview⟩ := eval_appendByte hhigh (by omega) n
    obtain ⟨c, hart₃, hc, hwidth', hvalue', hview'⟩ := ih hb (by omega)
    -- A fault of the byte above leaves the addresses and bytes below as they are.
    have hbelow (k : Nat) : (view hart₂).byte (w.loadAddress (view hart₂) k) =
        (view hart₁).byte (w.loadAddress (view hart₁) k) := by
      rw [hview]
      rfl
    refine ⟨c, hart₃, ?_, by omega, ?_, ?_⟩
    · rw [List.range_succ, List.reverse_append, List.reverse_singleton, List.singleton_append,
        List.foldl_cons]
      exact hc
    · simp only [hvalue', hvalue, hbelow, Finset.sum_range_succ]
      ring
    · rw [hview', hview]
      refine (Hart.View.raiseIf_raiseIf _ _).trans (Hart.View.raiseIf_congr _ _ ?_)
      rw [Nat.exists_lt_succ_right, or_comm]
      rfl

/-- What is loaded from so many bytes: the sum in which each counts 256 times as much
    as the one below. -/
theorem eval_loaded (w : Word) (hart : Hart .rv32) (n : Nat) (hfits : 8 * (n + 1) ≤ 64) :
    ∃ hart₁,
      (loaded (n + 1)).eval (w.instruction .I) hart =
        (.ok ⟨8 * (n + 1), BitVec.ofNat _
          (∑ k ∈ Finset.range (n + 1), (view hart).byte (w.loadAddress (view hart) k) * 256 ^ k), hfits⟩,
          hart₁) ∧
      view hart₁ = (view hart).raiseIf
        (∃ k < n + 1, (view hart).ram.size ≤ w.loadAddress (view hart) k) .loadFault := by
  obtain ⟨byte, hart₁, htop, hbyte, hview⟩ := eval_loadedByte w hart n
  have htopfits : (Bits.ofByte byte).width + 8 * n ≤ 64 := by
    change 8 + 8 * n ≤ 64
    omega
  obtain ⟨b, hart₂, hb, hwidth, hvalue, hview'⟩ := eval_appendBytes w n htop htopfits
  have hbelow (k : Nat) : (view hart₁).byte (w.loadAddress (view hart₁) k) =
      (view hart).byte (w.loadAddress (view hart) k) := by
    rw [hview]
    rfl
  refine ⟨hart₂, ?_, ?_⟩
  · have hsum : b.toNat =
        ∑ k ∈ Finset.range (n + 1), (view hart).byte (w.loadAddress (view hart) k) * 256 ^ k := by
      simp only [hvalue, hbelow, Finset.sum_range_succ, ← hbyte]
      exact Nat.add_comm _ _
    have hbits : b.width = 8 * (n + 1) := by
      change b.width = 8 + 8 * n at hwidth
      omega
    rw [← hsum, ← Bits.eq_mk_toNat hbits]
    exact hb
  · rw [hview', hview]
    refine (Hart.View.raiseIf_raiseIf _ _).trans (Hart.View.raiseIf_congr _ _ ?_)
    rw [Nat.exists_lt_succ_right, or_comm]
    rfl

/-- Every load computes the value that it sets from the bytes at its addresses. -/
theorem semantics_load {opcode : Opcode} (hload : opcode ∈ loads) (w : Word) (hart : Hart .rv32) :
    ∃ value hart₁, opcode.semantics = compute .I value ∧
      value.eval (w.instruction .I) hart =
        (.ok (word (opcode.extendLoaded (∑ k ∈ Finset.range opcode.accessBytes,
          (view hart).byte (w.loadAddress (view hart) k) * 256 ^ k))), hart₁) ∧
      view hart₁ = (view hart).raiseIf
        (∃ k < opcode.accessBytes, (view hart).ram.size ≤ w.loadAddress (view hart) k) .loadFault := by
  obtain ⟨hart₁, hbyte, hview₁⟩ := eval_loaded w hart 0 (by decide)
  obtain ⟨hart₂, hhalf, hview₂⟩ := eval_loaded w hart 1 (by decide)
  obtain ⟨hart₄, hword, hview₄⟩ := eval_loaded w hart 3 (by decide)
  have hone : 8 * (0 + 1) ≤ Xlen.rv32.bits := by decide
  have htwo : 8 * (1 + 1) ≤ Xlen.rv32.bits := by decide
  simp only [loads, List.mem_cons, List.not_mem_nil, or_false] at hload
  obtain rfl | rfl | rfl | rfl | rfl := hload
  · exact ⟨_, hart₁, rfl, Expr.eval_signExtend hbyte Xlen.rv32.bits_le hone, hview₁⟩
  · exact ⟨_, hart₂, rfl, Expr.eval_signExtend hhalf Xlen.rv32.bits_le htwo, hview₂⟩
  · exact ⟨_, hart₄, rfl, hword, hview₄⟩
  · exact ⟨_, hart₁, rfl, Expr.eval_zeroExtend hbyte Xlen.rv32.bits_le hone, hview₁⟩
  · exact ⟨_, hart₂, rfl, Expr.eval_zeroExtend hhalf Xlen.rv32.bits_le htwo, hview₂⟩

/-- What a load in a word leaves behind: its bytes, the lowest first, in `rd`, and a
    load fault if one of them is beyond the memory. -/
structure Loads (w : Word) (opcode : Opcode) (before after : Hart.View 32) : Prop where
  registers : after.registers = (before.setRegister w.rd.toFin (opcode.extendLoaded
    (∑ k ∈ Finset.range opcode.accessBytes, before.byte (w.loadAddress before k) * 256 ^ k))).registers
  ram : after.ram = before.ram
  pc : after.pc = before.pc + 4#32
  extensions : after.extensions = before.extensions
  trap : after.trap = (before.raiseIf
    (∃ k < opcode.accessBytes, before.ram.size ≤ w.loadAddress before k) .loadFault).trap

theorem Loads.execute {opcode : Opcode} (hload : opcode ∈ loads) (w : Word) (hart : Hart .rv32) :
    ∃ after, opcode.semantics.execute (w.instruction .I) hart = (.ok (), after) ∧
      Loads w opcode (view hart) (view after) := by
  obtain ⟨value, hart₁, hsemantics, hvalue, hview₁⟩ := semantics_load hload w hart
  obtain ⟨after, hexecute, hafter⟩ := execute_compute rfl hvalue
  rw [hview₁] at hafter
  rw [hsemantics]
  refine ⟨after, hexecute, ?_⟩
  rw [hafter]
  exact ⟨rfl, rfl, rfl, rfl, rfl⟩

end RiscvSemantics.Rv32
