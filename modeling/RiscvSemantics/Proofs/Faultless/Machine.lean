import RiscvSemantics.Proofs.Widths.Service

namespace RiscvSemantics

open Violation

variable {σ ε : Type}

/-- A question that names registers by five bits. It may ask for memory at an address of
    any width. -/
def Query.WellIndexed : Query → Prop
  | .register id => id.width = registerIdBits
  | .pc | .memory _ => True

def Change.WellIndexed : Change ε → Prop
  | .register id _ => id.width = registerIdBits
  | .pc _ | .memory .. | .raise _ => True

/-- From the states that `valid` admits on, no access makes the machine fault, as long as
    registers are named by five bits. What it answers may have any width. -/
structure Machine.Faultless [Machine σ ε] (valid : σ → Prop) : Prop where
  ask : ∀ {s : σ} {q : Query}, valid s → q.WellIndexed →
    ∃ value s', (q.ask : Action σ Bits) s = (.ok value, s') ∧ valid s'
  make : ∀ {s : σ} {c : Change ε}, valid s → c.WellIndexed →
    ∃ s', (c.make : Action σ Unit) s = (.ok (), s') ∧ valid s'

theorem Hart.faultless (x : Xlen) : Machine.Faultless fun _ : Hart x => True where
  ask := by
    intro hart q _ hindexed
    cases q with
    | pc => exact ⟨_, _, rfl, trivial⟩
    | register id =>
      obtain ⟨_, hget⟩ := getRegister_eq hindexed hart
      exact ⟨_, _, hget, trivial⟩
    | memory address => exact ⟨_, _, rfl, trivial⟩
  make := by
    intro hart c _ hindexed
    cases c with
    | pc value => exact ⟨_, rfl, trivial⟩
    | register id value =>
      obtain ⟨_, hset⟩ := setRegister_eq hindexed value hart
      exact ⟨_, hset, trivial⟩
    | memory address value => exact ⟨_, rfl, trivial⟩
    | raise cause => exact ⟨_, rfl, trivial⟩

/-- The widths are those of vectors. -/
def Sparse.Widths.Fit (widths : Sparse.Widths) : Prop :=
  widths.pc ≤ 64 ∧ widths.register ≤ 64 ∧ widths.cell ≤ 64

/-- A sparse machine does not fault, however odd the widths at which it answers. -/
theorem Sparse.faultless : Machine.Faultless fun sparse : Sparse => sparse.widths.Fit where
  ask := by
    intro sparse q hfit _
    obtain ⟨hpc, hregister, hcell⟩ := hfit
    cases q with
    | pc => exact ⟨_, sparse, read_eq (·.widths.pc) Sparse.pc hpc, hpc, hregister, hcell⟩
    | register id =>
      exact ⟨_, sparse, read_eq (·.widths.register) (·.register id.toNat) hregister, hpc, hregister, hcell⟩
    | memory address =>
      exact ⟨_, sparse, read_eq (·.widths.cell) (·.cell address.toNat) hcell, hpc, hregister, hcell⟩
  make := by
    intro sparse c hfit _
    cases c with
    | pc value => exact ⟨_, rfl, hfit⟩
    | register id value =>
      refine ⟨_, rfl, ?_⟩
      change (sparse.putRegister id.toNat value.toNat).widths.Fit
      rw [widths_putRegister]
      exact hfit
    | memory address value => exact ⟨_, rfl, hfit⟩
    | raise cause => exact ⟨_, rfl, hfit⟩

/-- A record does not make a machine fault. -/
theorem Recorded.faultless [Machine σ ε] {valid : σ → Prop} (hfaultless : Machine.Faultless valid) :
    Machine.Faultless fun recorded : Recorded σ ε => valid recorded.machine where
  ask := by
    intro recorded q hvalid hindexed
    obtain ⟨value, s', hask, hvalid'⟩ := hfaultless.ask hvalid hindexed
    exact ⟨value, _, ask_eq hask recorded.record, hvalid'⟩
  make := by
    intro recorded c hvalid hindexed
    obtain ⟨s', hmake, hvalid'⟩ := hfaultless.make hvalid hindexed
    exact ⟨_, make_eq hmake recorded.record, hvalid'⟩

end RiscvSemantics
