import Mathlib.Tactic.Ring
import RiscvSemantics.Proofs.Rv32.Step

namespace RiscvSemantics.Rv32

/-- A program lies at the beginning of the memory. -/
def Loaded (program : List Word) (view : Hart.View 32) : Prop :=
  ∀ i (hi : i < program.length), view.Holds (4 * i) 4 program[i].toNat

theorem Loaded.of_ram {program : List Word} {view other : Hart.View 32} (hloaded : Loaded program view)
    (hram : other.ram = view.ram) : Loaded program other :=
  fun i hi => (hloaded i hi).of_ram hram

/-- The instruction of a program that the program counter has come to. -/
theorem Loaded.next {program : List Word} {hart : Hart .rv32} {opcode : Opcode}
    (hloaded : Loaded program (view hart)) (htrap : hart.trap = none) {i : Nat} (hi : i < program.length)
    (hpc : hart.pc.toNat = 4 * i) (hrecognizes : opcode.Recognizes program[i].toNat)
    (henabled : opcode.isEnabled hart.extensions = true) : Next hart program[i] opcode := by
  refine ⟨htrap, ?_, hrecognizes, henabled⟩
  rw [hpc]
  exact hloaded i hi

/-- `addi x1, x0, 10` and `addi x2, x0, 0`; then the loop `add x2, x2, x1`, `addi x1, x1, -1`,
    `bne x1, x0, -8`; then `jal x0, 0`, which stays where it is. -/
def sumLoop : List Word :=
  [0x00a00093, 0x00000113, 0x00110133, 0xfff08093, 0xfe009ce3, 0x0000006f]

/-- What the loop has made of a hart by the time that it has come to `pc`: register 1 counts down
    and register 2 holds the sum. -/
def looping (start : Hart.View 32) (pc counter sum : BitVec 32) : Hart.View 32 :=
  { (start.setRegister (1#5).toFin counter).setRegister (2#5).toFin sum with pc }

/-- A hart that the loop can start from. -/
structure CanLoop (start : Hart.View 32) : Prop where
  loaded : Loaded sumLoop start
  trap : start.trap = none
  zero : start.registers 0 = 0#32

section Loop

variable {start : Hart.View 32} {hart : Hart .rv32} {counter sum : BitVec 32}

theorem looping_self (start : Hart.View 32) :
    looping start start.pc (start.registers 1) (start.registers 2) = start := by
  have hcounter : start.setRegister 1 (start.registers 1) = start := start.setRegister_registers 1
  have hsum : start.setRegister 2 (start.registers 2) = start := start.setRegister_registers 2
  have hboth : (start.setRegister 1 (start.registers 1)).setRegister 2 (start.registers 2) = start := by
    rw [hcounter, hsum]
  exact congrArg (fun v => { v with pc := start.pc }) hboth

theorem setRegister_counter (start : Hart.View 32) (pc counter sum value : BitVec 32) :
    (looping start pc counter sum).setRegister 1 value = looping start pc value sum := by
  have hone : ((start.setRegister 1 counter).setRegister 2 sum).setRegister 1 value =
      (start.setRegister 1 value).setRegister 2 sum := by
    rw [start.setRegister_comm _ _ (by decide), Hart.View.setRegister_setRegister,
      start.setRegister_comm _ _ (by decide)]
  exact congrArg (fun v => { v with pc }) hone

theorem setRegister_sum (start : Hart.View 32) (pc counter sum value : BitVec 32) :
    (looping start pc counter sum).setRegister 2 value = looping start pc counter value :=
  congrArg (fun v => { v with pc }) ((start.setRegister 1 counter).setRegister_setRegister 2 sum value)

/-- The instruction that the loop has come to is the next one. -/
theorem CanLoop.next (h : CanLoop start) {pc : BitVec 32} (hview : view hart = looping start pc counter sum)
    {i : Nat} (hi : i < sumLoop.length) (hpc : pc.toNat = 4 * i) {opcode : Opcode}
    (hrecognizes : opcode.Recognizes sumLoop[i].toNat) (hbase : opcode.isMultiplication = false) :
    Next hart sumLoop[i] opcode := by
  have hram : (view hart).ram = start.ram := by
    rw [hview]
    rfl
  have htrap : (view hart).trap = start.trap := by
    rw [hview]
    rfl
  have hcounter : (view hart).pc = pc := by
    rw [hview]
    rfl
  have henabled : opcode.isEnabled hart.extensions = true := by
    rw [Opcode.isEnabled, hbase]
    rfl
  have hplace : (view hart).pc.toNat = 4 * i := hcounter.symm ▸ hpc
  exact (h.loaded.of_ram hram).next (htrap.trans h.trap) hi hplace hrecognizes henabled

/-- The counter is added to the sum. -/
theorem CanLoop.passes_add (h : CanLoop start) (hview : view hart = looping start 8#32 counter sum) :
    ∃ after, catalog.Passes hart 1 after ∧ view after = looping start 12#32 counter (sum + counter) := by
  have hrecognizes : Opcode.add.Recognizes sumLoop[2].toNat := ⟨by decide, by decide, by decide⟩
  obtain ⟨after, hpasses, hafter⟩ :=
    (h.next hview (by decide) (by decide) hrecognizes rfl).exists_computes (by decide)
  have hcomputed : Word.computed sumLoop[2] .add (looping start 8#32 counter sum) = sum + counter :=
    (Bits.add_eq_ofInt sum counter).symm
  have hrd : (Word.rd sumLoop[2]).toFin = 2 := rfl
  rw [Computes, hview, hcomputed, hrd, setRegister_sum] at hafter
  exact ⟨after, hpasses, hafter⟩

/-- The counter goes down by one. -/
theorem CanLoop.passes_addi (h : CanLoop start) (hview : view hart = looping start 12#32 counter sum) :
    ∃ after, catalog.Passes hart 1 after ∧ view after = looping start 16#32 (counter - 1#32) sum := by
  have hrecognizes : Opcode.addi.Recognizes sumLoop[3].toNat := ⟨by decide, by decide, by decide⟩
  obtain ⟨after, hpasses, hafter⟩ :=
    (h.next hview (by decide) (by decide) hrecognizes rfl).exists_computes (by decide)
  have hcomputed : Word.computed sumLoop[3] .addi (looping start 12#32 counter sum) = counter - 1#32 := by
    have hoffset : Word.loadOffset sumLoop[3] = -1 := by decide
    have hsum : Word.computed sumLoop[3] .addi (looping start 12#32 counter sum) =
        BitVec.ofInt 32 (counter.toInt + (BitVec.ofInt 32 (Word.loadOffset sumLoop[3])).toInt) := rfl
    rw [hsum, hoffset, ← Bits.add_eq_ofInt, BitVec.sub_eq_add_neg]
    rfl
  have hrd : (Word.rd sumLoop[3]).toFin = 1 := rfl
  rw [Computes, hview, hcomputed, hrd, setRegister_counter] at hafter
  exact ⟨after, hpasses, hafter⟩

/-- The loop goes on unless the counter is zero. -/
theorem CanLoop.passes_bne (h : CanLoop start) (hview : view hart = looping start 16#32 counter sum) :
    ∃ after, catalog.Passes hart 1 after ∧
      view after = looping start (if counter = 0#32 then 20#32 else 8#32) counter sum := by
  have hrecognizes : Opcode.bne.Recognizes sumLoop[4].toNat := ⟨by decide, by decide, by decide⟩
  obtain ⟨after, hpasses, hafter⟩ :=
    (h.next hview (by decide) (by decide) hrecognizes rfl).exists_branches (by decide)
  rw [hview] at hafter
  have htakes : Opcode.bne.Takes ((looping start 16#32 counter sum).registers (Word.rs1 sumLoop[4]).toFin)
      ((looping start 16#32 counter sum).registers (Word.rs2 sumLoop[4]).toFin) ↔ counter ≠ 0#32 := by
    have hleft : (looping start 16#32 counter sum).registers (Word.rs1 sumLoop[4]).toFin = counter := rfl
    have hright : (looping start 16#32 counter sum).registers (Word.rs2 sumLoop[4]).toFin = 0#32 := h.zero
    rw [hleft, hright]
    rfl
  refine ⟨after, hpasses, ?_⟩
  by_cases hzero : counter = 0#32
  · rw [if_pos hzero]
    exact hafter.not_taken fun htake => htakes.mp htake hzero
  · rw [if_neg hzero]
    have hpc : (looping start 16#32 counter sum).pc = 16#32 := rfl
    have hdestination : Word.destination sumLoop[4] .bne 16#32 = 8#32 := by decide
    have htaken := hafter.taken (htakes.mpr hzero)
    rw [hpc, hdestination] at htaken
    exact htaken (by decide)

/-- The last instruction goes to itself. -/
theorem CanLoop.passes_jal (h : CanLoop start) (hview : view hart = looping start 20#32 counter sum) :
    catalog.Passes hart 1 hart := by
  have hrecognizes : Opcode.jal.Recognizes sumLoop[5].toNat := ⟨by decide, by decide, by decide⟩
  obtain ⟨after, hpasses, hafter⟩ := (h.next hview (by decide) (by decide) hrecognizes rfl).exists_jumps
  have hpc : (looping start 20#32 counter sum).pc = 20#32 := rfl
  have hdestination : Word.destination sumLoop[5] .jal 20#32 = 20#32 := by decide
  have hrd : (Word.rd sumLoop[5]).toFin = 0 := rfl
  have htaken := hafter.taken trivial
  rw [hview, hpc, hdestination, hrd, Hart.View.setRegister_zero] at htaken
  have hsame : view after = view hart := by
    rw [hview]
    exact htaken (by decide)
  obtain rfl : after = hart := Hart.view_injective hsame
  exact hpasses

theorem CanLoop.passes_end (h : CanLoop start) (hview : view hart = looping start 20#32 counter sum) (k : Nat) :
    catalog.Passes hart k hart := by
  induction k with
  | zero => exact .start hart
  | succ k ih => exact ih.append (h.passes_jal hview)

/-- The loop once. -/
theorem CanLoop.passes_once (h : CanLoop start) (hview : view hart = looping start 8#32 counter sum) :
    ∃ after, catalog.Passes hart 3 after ∧
      view after =
        looping start (if counter - 1#32 = 0#32 then 20#32 else 8#32) (counter - 1#32) (sum + counter) := by
  obtain ⟨added, hadd, hadded⟩ := h.passes_add hview
  obtain ⟨decremented, haddi, hdecremented⟩ := h.passes_addi hadded
  obtain ⟨after, hbne, hafter⟩ := h.passes_bne hdecremented
  exact ⟨after, (hadd.append haddi).append hbne, hafter⟩

/-- The numbers up to one more than `n`, with what has been summed up before. -/
theorem add_triangle (m n : Nat) :
    m + (n + 2) + (n + 1) * (n + 2) / 2 = m + (n + 2) * (n + 3) / 2 := by
  have hproduct : (n + 2) * (n + 3) = (n + 1) * (n + 2) + 2 * (n + 2) := by ring
  rw [hproduct, Nat.add_mul_div_left _ _ (by decide)]
  omega

/-- The whole loop. The induction is on the counter, which becomes zero only in the end. -/
theorem CanLoop.passes_loop (h : CanLoop start) {n : Nat} (hcounter : counter.toNat = n + 1)
    (hview : view hart = looping start 8#32 counter sum) :
    ∃ after, catalog.Passes hart (3 * (n + 1)) after ∧
      view after = looping start 20#32 0#32 (BitVec.ofNat 32 (sum.toNat + (n + 1) * (n + 2) / 2)) := by
  induction n generalizing hart counter sum with
  | zero =>
    obtain rfl : counter = 1#32 := BitVec.eq_of_toNat_eq hcounter
    exact h.passes_once hview
  | succ n ih =>
    have hless : (counter - 1#32).toNat = n + 1 := by
      rw [BitVec.toNat_sub, hcounter, BitVec.toNat_ofNat]
      have hlt := counter.isLt
      omega
    have hmore : counter - 1#32 ≠ 0#32 := by
      intro hzero
      rw [hzero] at hless
      exact Nat.succ_ne_zero n hless.symm
    obtain ⟨once, hfirst, honce⟩ := h.passes_once hview
    rw [if_neg hmore] at honce
    obtain ⟨after, hrest, hafter⟩ := ih hless honce
    have hsum : BitVec.ofNat 32 ((sum + counter).toNat + (n + 1) * (n + 2) / 2) =
        BitVec.ofNat 32 (sum.toNat + (n + 2) * (n + 3) / 2) := by
      apply BitVec.eq_of_toNat_eq
      rw [BitVec.toNat_ofNat, BitVec.toNat_ofNat, BitVec.toNat_add, Nat.mod_add_mod, hcounter, add_triangle]
    have hsteps : 3 * (n + 1 + 1) = 3 + 3 * (n + 1) := by omega
    rw [hsum] at hafter
    rw [hsteps]
    exact ⟨after, hfirst.append hrest, hafter⟩

end Loop

/-- The loop sums up the numbers from `n` down to 1, whatever else the hart holds. No run from the
    beginning of the loop breaks off or halts. After three steps a number it is at the end, where it
    stays; the sum has been added to register 2, and nothing else has changed but the counter. -/
theorem sum_loop {hart : Hart .rv32} {n : Nat} (hloaded : Loaded sumLoop (view hart)) (htrap : hart.trap = none)
    (hpc : (view hart).pc = 8#32) (hcounter : ((view hart).registers 1).toNat = n) (hpositive : 0 < n) :
    (∀ budget, (run catalog budget hart).1 = .ok none) ∧
      ∃ after, (∀ budget, 3 * n ≤ budget → run catalog budget hart = (.ok none, after)) ∧
        view after = { ((view hart).setRegister 1 0#32).setRegister 2
          (BitVec.ofNat 32 (((view hart).registers 2).toNat + n * (n + 1) / 2)) with pc := 20#32 } := by
  obtain ⟨m, rfl⟩ := Nat.exists_eq_succ_of_ne_zero hpositive.ne'
  have h : CanLoop (view hart) := ⟨hloaded, htrap, rfl⟩
  have hview : view hart = looping (view hart) 8#32 ((view hart).registers 1) ((view hart).registers 2) := by
    rw [← hpc, looping_self]
  obtain ⟨after, hpasses, hafter⟩ := h.passes_loop hcounter hview
  have hlater (k : Nat) : catalog.Passes hart (3 * (m + 1) + k) after :=
    hpasses.append (h.passes_end hafter k)
  refine ⟨fun budget => ?_, after, fun budget hle => ?_, hafter⟩
  · exact (hlater budget).run_of_le (Nat.le_add_left budget _)
  · obtain ⟨k, rfl⟩ := Nat.exists_eq_add_of_le hle
    exact (hlater k).run_eq

/-- From 10 on, in a memory that has room for the program alone: after thirty steps register 2 holds 55. -/
theorem sum_loop_ten :
    let program : ByteArray := ⟨#[0x93, 0x00, 0xa0, 0x00, 0x13, 0x01, 0x00, 0x00, 0x33, 0x01, 0x11, 0x00,
      0x93, 0x80, 0xf0, 0xff, 0xe3, 0x9c, 0x00, 0xfe, 0x6f, 0x00, 0x00, 0x00]⟩
    let start : Hart .rv32 := ⟨Vector.replicate 32 0#32, program, Extensions.none, none⟩
    let hart := (start.putPc 8).putRegister 1 10
    Loaded sumLoop (view hart) ∧ hart.trap = none ∧ (view hart).pc = 8#32 ∧
      ((view hart).registers 1).toNat = 10 ∧
      ∃ after, run catalog 30 hart = (.ok none, after) ∧ (view after).pc = 20#32 ∧
        ((view after).registers 2).toNat = 55 := by
  intro program start hart
  have hloaded : Loaded sumLoop (view hart) := by
    have hwords : ∀ i (hi : i < sumLoop.length),
        (∀ k < 4, (4 * i + k) % 2 ^ 32 < (view hart).ram.size) ∧
          ∀ k < 4, (view hart).byte ((4 * i + k) % 2 ^ 32) = sumLoop[i].toNat / 256 ^ k % 256 := by
      decide +kernel
    exact fun i hi => ⟨(hwords i hi).1, (hwords i hi).2⟩
  have hpc : (view hart).pc = 8#32 := by decide
  have hcounter : ((view hart).registers 1).toNat = 10 := by decide
  obtain ⟨-, after, hlater, hafter⟩ := sum_loop hloaded rfl hpc hcounter (by decide)
  refine ⟨hloaded, rfl, hpc, hcounter, after, hlater 30 (by decide), ?_, ?_⟩
  · rw [hafter]
  · rw [hafter]
    decide

end RiscvSemantics.Rv32
