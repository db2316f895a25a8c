import RiscvSemantics.Proofs.Hart.Number

namespace RiscvSemantics.Hart

open Interpretation

namespace View

variable {width : Nat} {view : View width} {address count : Nat}

/-- Some of so many bytes from an address on lies beyond the memory. Addresses wrap around. -/
def Overruns (view : View width) (address count : Nat) : Prop :=
  ∃ k < count, view.ram.size ≤ (address + k) % 2 ^ width

instance : Decidable (view.Overruns address count) :=
  inferInstanceAs (Decidable (∃ k < count, view.ram.size ≤ (address + k) % 2 ^ width))

theorem not_overruns_iff :
    ¬view.Overruns address count ↔ ∀ k < count, (address + k) % 2 ^ width < view.ram.size := by
  simp only [Overruns, not_exists, not_and, Nat.not_le]

theorem overruns_succ : view.Overruns address (count + 1) ↔
    view.Overruns address count ∨ view.ram.size ≤ (address + count) % 2 ^ width :=
  Nat.exists_lt_succ_right

theorem not_overruns_zero : ¬view.Overruns address 0 :=
  not_overruns_iff.mpr fun k hk => absurd hk (Nat.not_lt_zero k)

end View

variable {x : Xlen}

/-- Byte `k` of what is fetched from a program counter, read after the bytes below it. What is
    beyond the memory counts as zero, which is a fault. -/
theorem fetchByte_raiseIf {hart fetched : Hart x} (pc : Bits) (hpc : pc.width = x.bits) (k : Nat)
    (hfetched : fetched.view = hart.view.raiseIf (hart.view.Overruns pc.toNat k) .loadFault) :
    ∃ byte after, (fetchByte pc k : Action (Hart x) (BitVec 8)) fetched = (.ok byte, after) ∧
      byte.toNat = hart.view.byte ((pc.toNat + k) % 2 ^ x.bits) ∧
      after.view = hart.view.raiseIf (hart.view.Overruns pc.toNat (k + 1)) .loadFault := by
  have haddress : (pc.advance k).toNat = (pc.toNat + k) % 2 ^ x.bits := by
    rw [← hpc]
    exact BitVec.toNat_ofNat ..
  obtain ⟨hbyte, hafter⟩ := fetched.load_eq ((pc.toNat + k) % 2 ^ x.bits)
  have hcell : (Machine.getMemory (pc.advance k) : Action (Hart x) Bits) fetched =
      (.ok (Bits.ofByte (fetched.load (pc.advance k).toNat).1.toBitVec),
        (fetched.load (pc.advance k).toNat).2) := rfl
  rw [haddress] at hcell
  rw [hfetched] at hbyte hafter
  refine ⟨_, _, bind_of_ok hcell _, ?_, hafter.trans ?_⟩
  · exact (congrArg BitVec.toNat (BitVec.setWidth_eq _)).trans hbyte
  · refine (View.raiseIf_raiseIf _ _).trans (View.raiseIf_congr _ _ ?_)
    exact View.overruns_succ.symm

/-- The bytes of a word that is put together from them. -/
theorem toNat_append_bytes (b0 b1 b2 b3 : BitVec 8) :
    (b3 ++ b2 ++ b1 ++ b0).toNat =
      b0.toNat + b1.toNat * 256 ^ 1 + b2.toNat * 256 ^ 2 + b3.toNat * 256 ^ 3 := by
  simp only [toNat_append, Nat.shiftLeft_eq]
  omega

/-- Every fetch gives a word, which four bytes make up, and a fault if one of them is beyond the
    memory. -/
theorem exists_fetch (hart : Hart x) :
    ∃ word, (fetch : Action (Hart x) (Bits × BitVec 32)) hart =
        (.ok (⟨x.bits, hart.pc, x.bits_le⟩, word),
          { hart with trap := (hart.view.raiseIf (hart.view.Overruns hart.pc.toNat 4) .loadFault).trap }) ∧
      ∀ k < 4, word.toNat / 256 ^ k % 256 = hart.view.byte ((hart.pc.toNat + k) % 2 ^ x.bits) := by
  let pc : Bits := ⟨x.bits, hart.pc, x.bits_le⟩
  have hpc : (Machine.getPc : Action (Hart x) Bits) hart = (.ok pc, hart) := rfl
  have hnone : hart.view = hart.view.raiseIf (hart.view.Overruns pc.toNat 0) .loadFault :=
    (View.raiseIf_of_neg _ _ View.not_overruns_zero).symm
  obtain ⟨b0, hart₁, hfetch0, hb0, hview₁⟩ := fetchByte_raiseIf pc rfl 0 hnone
  obtain ⟨b1, hart₂, hfetch1, hb1, hview₂⟩ := fetchByte_raiseIf pc rfl 1 hview₁
  obtain ⟨b2, hart₃, hfetch2, hb2, hview₃⟩ := fetchByte_raiseIf pc rfl 2 hview₂
  obtain ⟨b3, hart₄, hfetch3, hb3, hview₄⟩ := fetchByte_raiseIf pc rfl 3 hview₃
  obtain rfl : hart₄ = { hart with
      trap := (hart.view.raiseIf (hart.view.Overruns hart.pc.toNat 4) .loadFault).trap } :=
    view_injective hview₄
  refine ⟨b3 ++ b2 ++ b1 ++ b0, ?_, ?_⟩
  · rw [fetch, bind_of_ok hpc, bind_of_ok hfetch0, bind_of_ok hfetch1, bind_of_ok hfetch2, bind_of_ok hfetch3]
    rfl
  · intro k hk
    have hlt0 := b0.isLt
    have hlt1 := b1.isLt
    have hlt2 := b2.isLt
    have hlt3 := b3.isLt
    rw [toNat_append_bytes]
    obtain rfl | rfl | rfl | rfl : k = 0 ∨ k = 1 ∨ k = 2 ∨ k = 3 := by omega
    · exact Eq.trans (by omega) hb0
    · exact Eq.trans (by omega) hb1
    · exact Eq.trans (by omega) hb2
    · exact Eq.trans (by omega) hb3

end RiscvSemantics.Hart
