import Mathlib.Algebra.BigOperators.Intervals
import RiscvSemantics.Proofs.Bits.Pieces
import RiscvSemantics.Proofs.Hart.View
import RiscvSemantics.Proofs.Machine.Interpretation
import RiscvSemantics.Run.Step

namespace RiscvSemantics.Hart

open Interpretation

namespace View

variable {width : Nat} {view : View width} {address count n : Nat}

/-- So many bytes of the memory, from an address on, hold a number, the lowest byte first.
    Addresses wrap around. -/
structure Holds (view : View width) (address count n : Nat) : Prop where
  inside : ∀ k < count, (address + k) % 2 ^ width < view.ram.size
  byte : ∀ k < count, view.byte ((address + k) % 2 ^ width) = n / 256 ^ k % 256

/-- The bytes make up the number, as far as it fits. -/
theorem Holds.sum_eq (h : view.Holds address count n) :
    ∑ k ∈ Finset.range count, view.byte ((address + k) % 2 ^ width) * 256 ^ k = n % 256 ^ count := by
  induction count with
  | zero => rw [Finset.sum_range_zero, Nat.pow_zero, Nat.mod_one]
  | succ count ih =>
    have hbelow : view.Holds address count n :=
      ⟨fun k hk => h.inside k (Nat.lt_succ_of_lt hk), fun k hk => h.byte k (Nat.lt_succ_of_lt hk)⟩
    rw [Finset.sum_range_succ, ih hbelow, h.byte count (Nat.lt_succ_self count), Nat.mod_pow_succ,
      Nat.mul_comm]

theorem Holds.mod (h : view.Holds address count n) : view.Holds (address % 2 ^ width) count n := by
  constructor <;> simp only [Nat.mod_add_mod]
  · exact h.inside
  · exact h.byte

/-- It is the memory that holds the number. -/
theorem Holds.of_ram {other : View width} (h : view.Holds address count n) (hram : other.ram = view.ram) :
    other.Holds address count n := by
  obtain ⟨pc, registers, ram, extensions, trap⟩ := view
  obtain rfl : other.ram = ram := hram
  exact ⟨h.inside, h.byte⟩

end View

variable {x : Xlen} {hart : Hart x}

/-- A byte that lies in the memory is fetched, and nothing is raised. -/
theorem fetchByte_of_lt (pc : Bits) (k : Nat)
    (hinside : (pc.toNat + k) % 2 ^ pc.width < hart.view.ram.size) :
    ∃ byte, (fetchByte pc k : Action (Hart x) (BitVec 8)) hart = (.ok byte, hart) ∧
      byte.toNat = hart.view.byte ((pc.toNat + k) % 2 ^ pc.width) := by
  have haddress : (pc.advance k).toNat = (pc.toNat + k) % 2 ^ pc.width := BitVec.toNat_ofNat ..
  have hload : hart.load (pc.advance k).toNat = (hart.view.ram[(pc.toNat + k) % 2 ^ pc.width], hart) := by
    rw [haddress]
    exact dif_pos hinside
  have hcell : (Machine.getMemory (pc.advance k) : Action (Hart x) Bits) hart =
      (.ok (Bits.ofByte (hart.load (pc.advance k).toNat).1.toBitVec), (hart.load (pc.advance k).toNat).2) := rfl
  rw [hload] at hcell
  have hbyte : hart.view.byte ((pc.toNat + k) % 2 ^ pc.width) =
      hart.view.ram[(pc.toNat + k) % 2 ^ pc.width].toNat := dif_pos hinside
  refine ⟨hart.view.ram[(pc.toNat + k) % 2 ^ pc.width].toBitVec, ?_, hbyte.symm⟩
  rw [fetchByte, bind_of_ok hcell]
  exact congrArg (fun byte => (Except.ok byte, hart)) (BitVec.setWidth_eq _)

/-- A word is its four bytes. -/
theorem append_bytes {word : BitVec 32} {b0 b1 b2 b3 : BitVec 8} (h0 : b0.toNat = word.toNat / 256 ^ 0 % 256)
    (h1 : b1.toNat = word.toNat / 256 ^ 1 % 256) (h2 : b2.toNat = word.toNat / 256 ^ 2 % 256)
    (h3 : b3.toNat = word.toNat / 256 ^ 3 % 256) : b3 ++ b2 ++ b1 ++ b0 = word := by
  have hlt := word.isLt
  apply BitVec.eq_of_toNat_eq
  simp only [toNat_append, Nat.shiftLeft_eq]
  omega

/-- The word that four bytes of memory hold is fetched there, and nothing is raised. -/
theorem fetch_of_holds {word : BitVec 32} (h : hart.view.Holds hart.pc.toNat 4 word.toNat) :
    (fetch : Action (Hart x) (Bits × BitVec 32)) hart = (.ok (⟨x.bits, hart.pc, x.bits_le⟩, word), hart) := by
  have hpc : (Machine.getPc : Action (Hart x) Bits) hart = (.ok ⟨x.bits, hart.pc, x.bits_le⟩, hart) := rfl
  have hbyte (k : Nat) (hk : k < 4) :
      ∃ byte,
        (fetchByte ⟨x.bits, hart.pc, x.bits_le⟩ k : Action (Hart x) (BitVec 8)) hart = (.ok byte, hart) ∧
        byte.toNat = word.toNat / 256 ^ k % 256 := by
    obtain ⟨byte, hfetch, hbyte⟩ := fetchByte_of_lt ⟨x.bits, hart.pc, x.bits_le⟩ k (h.inside k hk)
    exact ⟨byte, hfetch, hbyte.trans (h.byte k hk)⟩
  obtain ⟨b0, hfetch0, hb0⟩ := hbyte 0 (by decide)
  obtain ⟨b1, hfetch1, hb1⟩ := hbyte 1 (by decide)
  obtain ⟨b2, hfetch2, hb2⟩ := hbyte 2 (by decide)
  obtain ⟨b3, hfetch3, hb3⟩ := hbyte 3 (by decide)
  rw [fetch, bind_of_ok hpc, bind_of_ok hfetch0, bind_of_ok hfetch1, bind_of_ok hfetch2, bind_of_ok hfetch3,
    append_bytes hb0 hb1 hb2 hb3]
  rfl

/-- From the address on, the word is fetched, and the hart stays as it is. -/
def FetchesAt (hart : Hart x) (address : Nat) (word : BitVec 32) : Prop :=
  (fetch : Action (Hart x) (Bits × BitVec 32)) (hart.putPc address) =
    (.ok (⟨x.bits, BitVec.ofNat x.bits address, x.bits_le⟩, word), hart.putPc address)

theorem fetchesAt_of_holds {address : Nat} {word : BitVec 32} (h : hart.view.Holds address 4 word.toNat) :
    hart.FetchesAt address word := by
  have hpc : (hart.putPc address).pc = BitVec.ofNat x.bits address :=
    congrArg View.pc (hart.view_putPc address)
  have hplaced : (hart.putPc address).view.Holds (hart.putPc address).pc.toNat 4 word.toNat := by
    rw [hpc, BitVec.toNat_ofNat]
    exact h.mod.of_ram rfl
  rw [FetchesAt, ← hpc]
  exact fetch_of_holds hplaced

end RiscvSemantics.Hart
