import RiscvSemantics.Proofs.Bits.Integer
import RiscvSemantics.Proofs.Rv32.Load

namespace RiscvSemantics.Rv32

/-- Where byte `k` of what a word stores goes. -/
def Word.storeAddress (w : Word) (view : Hart.View 32) (k : Nat) : Nat :=
  (byteAddress (view.registers w.rs1.toFin) w.storeOffset k).toNat

/-- Byte `k` of what a word stores. -/
def Word.storedByte (w : Word) (view : Hart.View 32) (k : Nat) : UInt8 :=
  UInt8.ofNat ((view.registers w.rs2.toFin).extractLsb' (8 * k) 8).toNat

theorem Word.toNat_storedByte (w : Word) (view : Hart.View 32) (k : Nat) :
    (w.storedByte view k).toNat = (view.registers w.rs2.toFin).toNat / 256 ^ k % 256 := by
  rw [storedByte, UInt8.toNat_ofNat', Bits.toNat_extractByte, Nat.mod_mod]

/-- No two bytes of an access lie at one address, however the addresses wrap. -/
theorem byteAddress_distinct (base : BitVec 32) (offset : Int) {j k : Nat} (hjk : j < k) (hk : k < 4) :
    (byteAddress base offset j).toNat ≠ (byteAddress base offset k).toNat := by
  simp only [byteAddress, BitVec.toNat_ofInt]
  omega

/-- The statement that stores byte `k`. -/
theorem execute_storeByte (w : Word) (hart : Hart .rv32) (k : Nat) :
    ∃ after, (Statement.setMemory (effectiveAddress .S k) (.extract (8 * k) 8 (rs2 .S))).execute
        (w.instruction .S) hart = (.ok (), after) ∧
      view after = ((view hart).setByte (w.storeAddress (view hart) k) (w.storedByte (view hart) k)).raiseIf
        ((view hart).ram.size ≤ w.storeAddress (view hart) k) .storeFault := by
  have himm : (w.instruction .S).operand .S .imm = .ok (immediate w.immS (by decide)) := rfl
  have hrs2 : (w.instruction .S).operand .S .rs2 = .ok (registerId w.rs2) := rfl
  have haddress : (effectiveAddress .S k).eval (w.instruction .S) hart = (.ok (word _), hart) :=
    eval_effectiveAddress rfl himm w.toInt_immS k
  have hvalue : (Expr.extract (8 * k) 8 (rs2 .S)).eval (w.instruction .S) hart = (.ok _, hart) :=
    Expr.eval_extract (eval_readRegister hrs2) (by decide)
  exact ⟨_, Statement.execute_setMemory haddress rfl hvalue rfl rfl, hart.view_store _ _⟩

/-- The bytes are stored one after the other, each at its own address. -/
theorem execute_storeBytes (w : Word) (hart : Hart .rv32) (n : Nat) :
    ∃ after, Statement.executeAll (w.instruction .S) ((List.range n).map fun k =>
        .setMemory (effectiveAddress .S k) (.extract (8 * k) 8 (rs2 .S))) hart = (.ok (), after) ∧
      view after =
        ((view hart).setBytes (w.storeAddress (view hart)) (w.storedByte (view hart)) n).raiseIf
          (∃ k < n, (view hart).ram.size ≤ w.storeAddress (view hart) k) .storeFault := by
  induction n with
  | zero => exact ⟨hart, rfl, (Hart.View.raiseIf_of_neg _ _ (by simp)).symm⟩
  | succ n ih =>
    obtain ⟨hart₁, hexecute₁, hview₁⟩ := ih
    obtain ⟨hart₂, hexecute₂, hview₂⟩ := execute_storeByte w hart₁ n
    obtain ⟨ram, hset, hsize⟩ :=
      (view hart).setBytes_eq (w.storeAddress (view hart)) (w.storedByte (view hart)) n
    -- What has been stored so far changes neither the address nor the byte.
    have haddress : w.storeAddress (view hart₁) n = w.storeAddress (view hart) n := by
      rw [hview₁, hset]
      rfl
    have hbyte : w.storedByte (view hart₁) n = w.storedByte (view hart) n := by
      rw [hview₁, hset]
      rfl
    have hsize₁ : (view hart₁).ram.size = (view hart).ram.size := by
      rw [hview₁, hset]
      exact hsize
    refine ⟨hart₂, ?_, ?_⟩
    · rw [List.range_succ, List.map_append]
      exact Statement.executeAll_append hexecute₁ (Statement.executeAll_cons hexecute₂ rfl)
    · have hbeyond : (view hart₁).ram.size ≤ w.storeAddress (view hart) n ↔
          (view hart).ram.size ≤ w.storeAddress (view hart) n := by
        rw [hsize₁]
      rw [hview₂, haddress, hbyte, Hart.View.raiseIf_congr _ _ hbeyond, hview₁,
        Hart.View.raiseIf_setByte, Hart.View.raiseIf_raiseIf]
      refine Hart.View.raiseIf_congr _ _ ?_
      rw [Nat.exists_lt_succ_right]

/-- What a store in a word leaves behind: the low bytes of `rs2`, the lowest first, as
    far as they fall into the memory, and a store fault if one of them does not. -/
structure Stores (w : Word) (opcode : Opcode) (before after : Hart.View 32) : Prop where
  written : ∀ k < opcode.accessBytes, w.storeAddress before k < before.ram.size →
    after.byte (w.storeAddress before k) = (before.registers w.rs2.toFin).toNat / 256 ^ k % 256
  kept : ∀ address, (∀ k < opcode.accessBytes, address ≠ w.storeAddress before k) →
    after.byte address = before.byte address
  size : after.ram.size = before.ram.size
  registers : after.registers = before.registers
  pc : after.pc = before.pc + 4#32
  extensions : after.extensions = before.extensions
  trap : after.trap = (before.raiseIf
    (∃ k < opcode.accessBytes, before.ram.size ≤ w.storeAddress before k) .storeFault).trap

theorem Stores.execute {opcode : Opcode} (hstore : opcode ∈ stores) (w : Word) (hart : Hart .rv32) :
    ∃ after, opcode.semantics.execute (w.instruction .S) hart = (.ok (), after) ∧
      Stores w opcode (view hart) (view after) := by
  obtain ⟨hsemantics, hbytes⟩ : opcode.semantics = store opcode.accessBytes ∧ opcode.accessBytes ≤ 4 := by
    simp only [stores, List.mem_cons, List.not_mem_nil, or_false] at hstore
    obtain rfl | rfl | rfl := hstore <;> exact ⟨rfl, by decide⟩
  obtain ⟨hart₁, hexecute, hview₁⟩ := execute_storeBytes w hart opcode.accessBytes
  obtain ⟨ram, hset, hsize⟩ :=
    (view hart).setBytes_eq (w.storeAddress (view hart)) (w.storedByte (view hart)) opcode.accessBytes
  have hadvance : advance.execute (w.instruction .S) hart₁ = (.ok (), _) :=
    execute_setPc (eval_nextPc rfl)
  rw [hsemantics]
  refine ⟨_, Statement.executeAll_append hexecute (Statement.executeAll_cons hadvance rfl), ?_⟩
  rw [view_putPc, hview₁]
  refine ⟨fun k hk haddress => ?_, fun address hne => ?_, ?_, ?_, ?_, ?_, ?_⟩
  · have hdistinct : ∀ i j, i < j → j < opcode.accessBytes →
        w.storeAddress (view hart) i ≠ w.storeAddress (view hart) j :=
      fun i j hij hj => byteAddress_distinct _ _ hij (Nat.lt_of_lt_of_le hj hbytes)
    exact (Hart.View.byte_setBytes _ _ _ _ hdistinct hk haddress).trans (w.toNat_storedByte _ k)
  · exact Hart.View.byte_setBytes_of_ne _ _ _ _ hne
  · rw [hset]
    exact hsize
  · rw [hset]
    rfl
  · rw [hset]
    rfl
  · rw [hset]
    rfl
  · rw [hset]
    rfl

/-- Every load and store that a word can be moves its bytes, on every hart, and goes on to
    the next instruction, also when it faults. -/
theorem execute_access {w : Word} {extensions : Extensions} {decoded : Decoded Opcode} (hart : Hart .rv32)
    (hdecode : decode w extensions = some decoded)
    (haccess : decoded.opcode ∈ loads ∨ decoded.opcode ∈ stores) :
    ∃ after, (decoded.opcode.semantics.execute ⟨decoded.operands, instructionBytes⟩ :
        Interpretation (Hart .rv32) Violation Unit) hart = (.ok (), after) ∧
      (decoded.opcode ∈ loads → Loads w decoded.opcode (view hart) (view after)) ∧
      (decoded.opcode ∈ stores → Stores w decoded.opcode (view hart) (view after)) := by
  obtain ⟨opcode, rfl⟩ := eq_of_decode hdecode
  rcases haccess with hload | hstore
  · have hformat : opcode.format = .I ∧ opcode ∉ stores := by
      simp only [loads, List.mem_cons, List.not_mem_nil, or_false] at hload
      obtain rfl | rfl | rfl | rfl | rfl := hload <;> decide
    obtain ⟨after, hexecute, hloads⟩ := Loads.execute hload w hart
    rw [hformat.1]
    exact ⟨after, hexecute, fun _ => hloads, fun hstore => absurd hstore hformat.2⟩
  · have hformat : opcode.format = .S ∧ opcode ∉ loads := by
      simp only [stores, List.mem_cons, List.not_mem_nil, or_false] at hstore
      obtain rfl | rfl | rfl := hstore <;> decide
    obtain ⟨after, hexecute, hstores⟩ := Stores.execute hstore w hart
    rw [hformat.1]
    exact ⟨after, hexecute, fun hload => absurd hload hformat.2, fun _ => hstores⟩

/-- With 16 bytes of memory, `lw x5, 14(x0)` faults on its upper half, and
    `sw x0, 12(x0)` fills the end. -/
theorem execute_access_at_end :
    decode 0x00e02283#32 Extensions.none = some ⟨.lw, Word.operands 0x00e02283#32 .I⟩ ∧
      decode 0x00002623#32 Extensions.none = some ⟨.sw, Word.operands 0x00002623#32 .S⟩ ∧
      (∃ after, (Opcode.lw.semantics.execute ⟨Word.operands 0x00e02283#32 .I, instructionBytes⟩ :
          Interpretation (Hart .rv32) Violation Unit) (Hart.new .rv32 16 Extensions.none) = (.ok (), after) ∧
        (view after).pc = 4#32 ∧ (view after).trap = some .loadFault) ∧
      ∃ after, (Opcode.sw.semantics.execute ⟨Word.operands 0x00002623#32 .S, instructionBytes⟩ :
          Interpretation (Hart .rv32) Violation Unit) (Hart.new .rv32 16 Extensions.none) = (.ok (), after) ∧
        (view after).byte 15 = 0 ∧ (view after).trap = none := by
  have hlw : decode 0x00e02283#32 Extensions.none = some ⟨.lw, Word.operands 0x00e02283#32 .I⟩ := by
    decide
  have hsw : decode 0x00002623#32 Extensions.none = some ⟨.sw, Word.operands 0x00002623#32 .S⟩ := by
    decide
  have hsize : (view (Hart.new .rv32 16 Extensions.none)).ram.size = 16 := Ram.size_zeros 16
  refine ⟨hlw, hsw, ?_, ?_⟩
  · obtain ⟨after, hexecute, hloads, _⟩ :=
      execute_access (Hart.new .rv32 16 Extensions.none) hlw (.inl (by decide))
    have hloads : Loads 0x00e02283#32 .lw (view (Hart.new .rv32 16 Extensions.none)) (view after) :=
      hloads (by decide)
    have hbeyond : ∃ k < Opcode.lw.accessBytes, (view (Hart.new .rv32 16 Extensions.none)).ram.size ≤
        Word.loadAddress 0x00e02283#32 (view (Hart.new .rv32 16 Extensions.none)) k :=
      ⟨2, by decide, by rw [hsize]; decide⟩
    refine ⟨after, hexecute, ?_, ?_⟩
    · rw [hloads.pc]
      decide
    · rw [hloads.trap, Hart.View.raiseIf_of_pos _ _ hbeyond]
      rfl
  · obtain ⟨after, hexecute, _, hstores⟩ :=
      execute_access (Hart.new .rv32 16 Extensions.none) hsw (.inr (by decide))
    have hstores : Stores 0x00002623#32 .sw (view (Hart.new .rv32 16 Extensions.none)) (view after) :=
      hstores (by decide)
    have hinside : ¬∃ k < Opcode.sw.accessBytes, (view (Hart.new .rv32 16 Extensions.none)).ram.size ≤
        Word.storeAddress 0x00002623#32 (view (Hart.new .rv32 16 Extensions.none)) k := by
      rw [hsize]
      decide
    refine ⟨after, hexecute, ?_, ?_⟩
    · exact hstores.written 3 (by decide) (by rw [hsize]; decide)
    · rw [hstores.trap, Hart.View.raiseIf_of_neg _ _ hinside]
      rfl

end RiscvSemantics.Rv32
