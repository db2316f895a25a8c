import RiscvSemantics.Proofs.Image.Placed
import RiscvSemantics.Proofs.Rv32.Store

namespace RiscvSemantics.Rv32

/-- With that memory, every load of the kind from the address, whatever base and offset make it up,
    sets its register to the value and goes on to the next instruction. It does nothing else. -/
def LoadsAt (ram : ByteArray) (opcode : Opcode) (address : Nat) (value : BitVec 32) : Prop :=
  ∀ (w : Word) (extensions : Extensions) (operands : Operands) (hart : Hart .rv32),
    decode w extensions = some ⟨opcode, operands⟩ → hart.ram = ram →
      w.loadAddress (view hart) 0 = address % 2 ^ 32 →
      ∃ after, (opcode.semantics.execute ⟨operands, instructionBytes⟩ :
          Interpretation (Hart .rv32) Violation Unit) hart = (.ok (), after) ∧
        view after = { (view hart).setRegister w.rd.toFin value with pc := (view hart).pc + 4#32 }

/-- The bytes of an access lie one behind the other from its first one on. -/
theorem toNat_byteAddress (base : BitVec 32) (offset : Int) (k : Nat) :
    (byteAddress base offset k).toNat = ((byteAddress base offset 0).toNat + k) % 2 ^ 32 := by
  simp only [byteAddress, BitVec.toNat_ofInt]
  omega

theorem Word.loadAddress_eq (w : Word) (before : Hart.View 32) (k : Nat) :
    w.loadAddress before k = (w.loadAddress before 0 + k) % 2 ^ 32 :=
  toNat_byteAddress ..

theorem Word.storeAddress_eq (w : Word) (before : Hart.View 32) (k : Nat) :
    w.storeAddress before k = (w.storeAddress before 0 + k) % 2 ^ 32 :=
  toNat_byteAddress ..

/-- A load of bytes that hold a number sets its register to that, and does not fault. -/
theorem Loads.eq_of_holds {w : Word} {opcode : Opcode} {before after : Hart.View 32} {n : Nat}
    (h : Loads w opcode before after) (hholds : before.Holds (w.loadAddress before 0) opcode.accessBytes n) :
    after = { before.setRegister w.rd.toFin (opcode.extendLoaded (n % 256 ^ opcode.accessBytes)) with
      pc := before.pc + 4#32 } := by
  have hsum : ∑ k ∈ Finset.range opcode.accessBytes, before.byte (w.loadAddress before k) * 256 ^ k =
      n % 256 ^ opcode.accessBytes := by
    rw [← hholds.sum_eq]
    exact Finset.sum_congr rfl fun k _ => by rw [w.loadAddress_eq]
  have hquiet : ¬∃ k < opcode.accessBytes, before.ram.size ≤ w.loadAddress before k := by
    rintro ⟨k, hk, hbeyond⟩
    rw [w.loadAddress_eq] at hbeyond
    exact Nat.not_le.mpr (hholds.inside k hk) hbeyond
  obtain ⟨hregisters, hram, hpc, hextensions, htrap⟩ := h
  rw [hsum] at hregisters
  rw [Hart.View.raiseIf_of_neg _ _ hquiet] at htrap
  obtain ⟨pc, registers, ram, extensions, trap⟩ := after
  simp only at hregisters hram hpc hextensions htrap
  rw [hregisters, hram, hpc, hextensions, htrap]
  rfl

theorem Loads.of_decode {w : Word} {extensions : Extensions} {decoded : Decoded Opcode} (hart : Hart .rv32)
    (hdecode : decode w extensions = some decoded) (hload : decoded.opcode ∈ loads) :
    ∃ after, (decoded.opcode.semantics.execute ⟨decoded.operands, instructionBytes⟩ :
        Interpretation (Hart .rv32) Violation Unit) hart = (.ok (), after) ∧
      Loads w decoded.opcode (view hart) (view after) := by
  obtain ⟨opcode, rfl⟩ := eq_of_decode hdecode
  have hformat : ∀ opcode ∈ loads, opcode.format = .I := by decide
  rw [hformat opcode hload]
  exact Loads.execute hload w hart

theorem Stores.of_decode {w : Word} {extensions : Extensions} {decoded : Decoded Opcode} (hart : Hart .rv32)
    (hdecode : decode w extensions = some decoded) (hstore : decoded.opcode ∈ stores) :
    ∃ after, (decoded.opcode.semantics.execute ⟨decoded.operands, instructionBytes⟩ :
        Interpretation (Hart .rv32) Violation Unit) hart = (.ok (), after) ∧
      Stores w decoded.opcode (view hart) (view after) := by
  obtain ⟨opcode, rfl⟩ := eq_of_decode hdecode
  have hformat : ∀ opcode ∈ stores, opcode.format = .S := by decide
  rw [hformat opcode hstore]
  exact Stores.execute hstore w hart

theorem loadsAt_of_holds {opcode : Opcode} {before : Hart .rv32} {address n : Nat} (hload : opcode ∈ loads)
    (h : (view before).Holds address opcode.accessBytes n) :
    LoadsAt before.ram opcode address (opcode.extendLoaded (n % 256 ^ opcode.accessBytes)) := by
  intro w extensions operands hart hdecode hram haddress
  obtain ⟨after, hexecute, hloads⟩ := Loads.of_decode hart hdecode hload
  refine ⟨after, hexecute, hloads.eq_of_holds ?_⟩
  rw [haddress]
  exact h.mod.of_ram hram

/-- A store into the memory leaves what it stores there, and does not fault. -/
theorem Stores.holds {w : Word} {opcode : Opcode} {before after : Hart.View 32}
    (h : Stores w opcode before after)
    (hinside : ∀ k < opcode.accessBytes, w.storeAddress before k < before.ram.size) :
    after.Holds (w.storeAddress before 0) opcode.accessBytes (before.registers w.rs2.toFin).toNat := by
  refine ⟨fun k hk => ?_, fun k hk => ?_⟩
  · rw [← w.storeAddress_eq, h.size]
    exact hinside k hk
  · rw [← w.storeAddress_eq]
    exact h.written k hk (hinside k hk)

theorem Stores.trap_eq {w : Word} {opcode : Opcode} {before after : Hart.View 32}
    (h : Stores w opcode before after)
    (hinside : ∀ k < opcode.accessBytes, w.storeAddress before k < before.ram.size) :
    after.trap = before.trap := by
  have hquiet : ¬∃ k < opcode.accessBytes, before.ram.size ≤ w.storeAddress before k := by
    rintro ⟨k, hk, hbeyond⟩
    exact Nat.not_le.mpr (hinside k hk) hbeyond
  rw [h.trap, Hart.View.raiseIf_of_neg _ _ hquiet]

/-- What a store has left can be read back from its address: a word is loaded and fetched, a half
    word and a byte are loaded with zeros above. -/
structure ReadsBack (opcode : Opcode) (address : Nat) (value : BitVec 32) (after : Hart .rv32) : Prop where
  word : opcode = .sw → after.FetchesAt address value ∧ LoadsAt after.ram .lw address value
  half : opcode = .sh → LoadsAt after.ram .lhu address (BitVec.ofNat 32 (value.toNat % 2 ^ 16))
  byte : opcode = .sb → LoadsAt after.ram .lbu address (BitVec.ofNat 32 (value.toNat % 2 ^ 8))

theorem extendLoaded_lw (value : BitVec 32) : Opcode.lw.extendLoaded (value.toNat % 256 ^ 4) = value := by
  have hloaded : Opcode.lw.extendLoaded (value.toNat % 256 ^ 4) = BitVec.ofNat 32 (value.toNat % 256 ^ 4) := rfl
  have hlt : value.toNat < 256 ^ 4 := value.isLt
  rw [hloaded, Nat.mod_eq_of_lt hlt, BitVec.ofNat_toNat, BitVec.setWidth_eq]

theorem zeroExtend_ofNat (width n : Nat) :
    (BitVec.ofNat width n).zeroExtend 32 = BitVec.ofNat 32 (n % 2 ^ width) := by
  apply BitVec.eq_of_toNat_eq
  rw [BitVec.zeroExtend, BitVec.toNat_setWidth, BitVec.toNat_ofNat, BitVec.toNat_ofNat]

theorem extendLoaded_lhu (n : Nat) : Opcode.lhu.extendLoaded (n % 256 ^ 2) = BitVec.ofNat 32 (n % 2 ^ 16) := by
  have hloaded : Opcode.lhu.extendLoaded (n % 256 ^ 2) = (BitVec.ofNat 16 (n % 2 ^ 16)).zeroExtend 32 := rfl
  rw [hloaded, zeroExtend_ofNat, Nat.mod_mod]

theorem extendLoaded_lbu (n : Nat) : Opcode.lbu.extendLoaded (n % 256 ^ 1) = BitVec.ofNat 32 (n % 2 ^ 8) := by
  have hloaded : Opcode.lbu.extendLoaded (n % 256 ^ 1) = (BitVec.ofNat 8 (n % 2 ^ 8)).zeroExtend 32 := rfl
  rw [hloaded, zeroExtend_ofNat, Nat.mod_mod]

theorem loadsAt_word {before : Hart .rv32} {address : Nat} {value : BitVec 32}
    (h : (view before).Holds address 4 value.toNat) : LoadsAt before.ram .lw address value := by
  have hload : LoadsAt before.ram .lw address (Opcode.lw.extendLoaded (value.toNat % 256 ^ 4)) :=
    loadsAt_of_holds (by decide) h
  rwa [extendLoaded_lw] at hload

theorem readsBack_of_holds {opcode : Opcode} {address : Nat} {value : BitVec 32} {after : Hart .rv32}
    (h : (view after).Holds address opcode.accessBytes value.toNat) : ReadsBack opcode address value after := by
  refine ⟨?_, ?_, ?_⟩
  · rintro rfl
    exact ⟨Hart.fetchesAt_of_holds h, loadsAt_word h⟩
  · rintro rfl
    have hload : LoadsAt after.ram .lhu address (Opcode.lhu.extendLoaded (value.toNat % 256 ^ 2)) :=
      loadsAt_of_holds (by decide) h
    rwa [extendLoaded_lhu] at hload
  · rintro rfl
    have hload : LoadsAt after.ram .lbu address (Opcode.lbu.extendLoaded (value.toNat % 256 ^ 1)) :=
      loadsAt_of_holds (by decide) h
    rwa [extendLoaded_lbu] at hload

/-- Loading an image, fetching, loads and stores have the bytes of a word in one order and go on from
    an address in one way, wherever it lies and however it wraps around. Every word of an image
    that has been loaded and that does not overlap itself is fetched and loaded where it was put, and
    what a store puts into the memory is fetched and loaded there, whatever base and offset make up
    the address. -/
theorem byte_orders_agree :
    (∀ {x : Xlen} {base n : Nat} {file : ByteArray} {before after : Hart x},
        Image.load base file before = (.ok n, after) →
          ∃ ws, (Image.words file : Except (Image.Error Cause) _) = .ok ws ∧ n = 4 * ws.length ∧
            after.trap = none ∧ (4 * ws.length ≤ 2 ^ x.bits →
              ∀ i (hi : i < ws.length), after.FetchesAt (base + 4 * i) ws[i])) ∧
      (∀ {base n : Nat} {file : ByteArray} {before after : Hart .rv32},
        Image.load base file before = (.ok n, after) →
          ∃ ws, (Image.words file : Except (Image.Error Cause) _) = .ok ws ∧ (4 * ws.length ≤ 2 ^ 32 →
            ∀ i (hi : i < ws.length), LoadsAt after.ram .lw (base + 4 * i) ws[i])) ∧
      ∀ {w : Word} {extensions : Extensions} {decoded : Decoded Opcode} {before : Hart .rv32},
        decode w extensions = some decoded → decoded.opcode ∈ stores →
          (∀ k < decoded.opcode.accessBytes, w.storeAddress (view before) k < before.ram.size) →
            ∃ after, (decoded.opcode.semantics.execute ⟨decoded.operands, instructionBytes⟩ :
                Interpretation (Hart .rv32) Violation Unit) before = (.ok (), after) ∧
              after.trap = before.trap ∧
              ReadsBack decoded.opcode (w.storeAddress (view before) 0)
                ((view before).registers w.rs2.toFin) after := by
  refine ⟨?_, ?_, ?_⟩
  · intro x base n file before after hload
    obtain ⟨ws, hws, hn, htrap, hplaced⟩ := Image.exists_placed_of_load hload
    refine ⟨ws, hws, hn, htrap, fun hfits i hi => ?_⟩
    exact Hart.fetchesAt_of_holds (hplaced.holds hfits hi)
  · intro base n file before after hload
    obtain ⟨ws, hws, hn, htrap, hplaced⟩ := Image.exists_placed_of_load hload
    refine ⟨ws, hws, fun hfits i hi => ?_⟩
    exact loadsAt_word (hplaced.holds hfits hi)
  · intro w extensions decoded before hdecode hstore hinside
    obtain ⟨after, hexecute, hstores⟩ := Stores.of_decode before hdecode hstore
    exact ⟨after, hexecute, hstores.trap_eq hinside, readsBack_of_holds (hstores.holds hinside)⟩

/-- An image of one word is loaded into the last two and the first two bytes of a memory that the
    addresses of a hart just reach; the word is fetched there. `sw x1, 12(x0)` stores a word that is
    loaded and fetched again. -/
theorem word_wraps_around :
    let file : ByteArray :=
      ⟨#[0x76, 0x32, 0x2e, 0x30, 0x20, 0x72, 0x61, 0x77, 10, 0x61, 0x30, 0x30, 0x32, 0x39, 0x33]⟩
    let before := Hart.new ⟨3, by decide, by decide⟩ 8 Extensions.none
    let after := (Image.load 6 file before).2
    let start := (Hart.new .rv32 16 Extensions.none).putRegister 1 0x12345678
    (Image.load 6 file before).1.toOption = some 4 ∧ after.FetchesAt 6 0xa00293#32 ∧
      ∃ after, (Opcode.sw.semantics.execute ⟨Word.operands 0x00102623#32 .S, instructionBytes⟩ :
          Interpretation (Hart .rv32) Violation Unit) start = (.ok (), after) ∧
        after.FetchesAt 12 0x12345678#32 ∧ LoadsAt after.ram .lw 12 0x12345678#32 := by
  intro file before after start
  have hanswer : (Image.load 6 file before).1.toOption = some 4 := by decide +kernel
  have hwords : (Image.words file : Except (Image.Error Cause) _).toOption = some [0xa00293#32] := by
    decide +kernel
  obtain ⟨hfetch, -, hstore⟩ := byte_orders_agree
  refine ⟨hanswer, ?_, ?_⟩
  · cases hload : Image.load 6 file before with
    | mk answer loaded =>
      have hafter : after = loaded := congrArg Prod.snd hload
      rw [hload] at hanswer
      cases answer with
      | error stop => cases hanswer
      | ok n =>
        obtain ⟨ws, hws, -, -, hplaced⟩ := hfetch hload
        rw [hws] at hwords
        obtain rfl : ws = [0xa00293#32] := Option.some.inj hwords
        rw [hafter]
        exact hplaced (by decide) 0 (by decide)
  · have hdecode : decode 0x00102623#32 Extensions.none = some ⟨.sw, Word.operands 0x00102623#32 .S⟩ := by
      decide
    have hsize : start.ram.size = 16 := Ram.size_zeros 16
    have hinside : ∀ k < Opcode.sw.accessBytes,
        Word.storeAddress 0x00102623#32 (view start) k < start.ram.size := by
      rw [hsize]
      decide
    obtain ⟨after, hexecute, -, hback⟩ := hstore hdecode (by decide) hinside
    exact ⟨after, hexecute, hback.word rfl⟩

end RiscvSemantics.Rv32
