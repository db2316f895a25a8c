import RiscvSemantics.Machine.Probe
import RiscvSemantics.Proofs.Faultless.Machine
import RiscvSemantics.Proofs.Record.Deeds

namespace RiscvSemantics

namespace Probe

variable {ε : Type}

theorem exists_registerIndex {id : Bits} (hid : id.width = 5) :
    ∃ index, registerIndex id.toNat = .ok index := by
  obtain ⟨width, value, hwidth⟩ := id
  obtain rfl : width = 5 := hid
  exact ⟨_, dif_pos value.isLt⟩

theorem exists_register (probe : Probe ε) {id : Bits} (hid : id.width = 5) :
    ∃ value, probe.register id.toNat = .ok value := by
  obtain ⟨index, hindex⟩ := exists_registerIndex hid
  rw [register, hindex]
  split
  · exact ⟨_, rfl⟩
  · exact ⟨_, rfl⟩

theorem exists_putRegister (probe : Probe ε) {id : Bits} (hid : id.width = 5) (value : Nat) :
    ∃ after, probe.putRegister id.toNat value = .ok after ∧ after.cellWidth = probe.cellWidth := by
  obtain ⟨index, hindex⟩ := exists_registerIndex hid
  rw [putRegister, hindex]
  split
  · exact ⟨_, rfl, rfl⟩
  · exact ⟨_, rfl, rfl⟩

/-- A probe does not fault as long as its cells have a width that vectors can have. -/
theorem faultless : Machine.Faultless fun probe : Probe ε => probe.cellWidth.getD 8 ≤ 64 where
  ask := by
    intro probe q hwidth hindexed
    cases q with
    | pc => exact ⟨_, _, rfl, hwidth⟩
    | register id =>
      obtain ⟨value, hvalue⟩ := probe.exists_register hindexed
      exact ⟨value, _, congrArg (·, _) hvalue, hwidth⟩
    | memory address => exact ⟨_, _, congrArg (·, _) (dif_pos hwidth), hwidth⟩
  make := by
    intro probe c hwidth hindexed
    cases c with
    | pc value => exact ⟨_, rfl, hwidth⟩
    | register id value =>
      obtain ⟨after, hafter, hsame⟩ :=
        (probe.keep (.setRegister id.toNat value.toNat)).exists_putRegister hindexed value.toNat
      refine ⟨after, ?_, hsame ▸ hwidth⟩
      simp only [Change.make, Machine.setRegister, change, hafter]
    | memory address value => exact ⟨_, rfl, hwidth⟩
    | raise cause => exact ⟨_, rfl, hwidth⟩

/-- A probe as it would be had it never been asked for its pending cause. -/
def unpolled (probe : Probe ε) : Probe ε :=
  { probe with statusChecks := 0 }

/-- Nothing else about a probe depends on how often it was asked. -/
theorem indifferent : PolledMachine.Indifferent (unpolled : Probe ε → Probe ε) where
  polled _ := rfl
  ask := by
    intro s t q hview
    obtain ⟨pc, registers, memory, trap, cellWidth, calls, _⟩ := s
    obtain ⟨_, _, _, _, _, _, _⟩ := t
    cases hview
    cases q <;> exact ⟨rfl, rfl⟩
  make := by
    intro s t c hview
    obtain ⟨pc, registers, memory, trap, cellWidth, calls, _⟩ := s
    obtain ⟨_, _, _, _, _, _, _⟩ := t
    cases hview
    cases c with
    | pc value => exact ⟨rfl, rfl⟩
    | register id value =>
      simp only [Change.make, Machine.setRegister, change, putRegister]
      by_cases hzero : id.toNat = 0
      · simp only [hzero, if_true]
        exact ⟨rfl, rfl⟩
      · simp only [hzero, if_false]
        cases registerIndex id.toNat <;> exact ⟨rfl, rfl⟩
    | memory address value => exact ⟨rfl, rfl⟩
    | raise cause => exact ⟨rfl, rfl⟩

end Probe

end RiscvSemantics
