import RiscvSemantics.Formula.Violation
import RiscvSemantics.Machine.Sparse
import RiscvSemantics.Proofs.Dialogue.Record
import RiscvSemantics.Proofs.Hart.View

namespace RiscvSemantics

inductive Read where
  | pc | register | cell
deriving DecidableEq

/-- The widths at which a machine answers reads. -/
structure Machine.Widths where
  pc : Nat
  register : Nat
  cell : Nat

variable {σ ε δ α : Type}

def Machine.Widths.of (widths : Widths) : Read → Nat
  | .pc => widths.pc
  | .register => widths.register
  | .cell => widths.cell

def Query.read : Query → Read
  | .pc => .pc
  | .register _ => .register
  | .memory _ => .cell

/-- The access is a read of that kind; it is none if it changes the machine. -/
def Access.read? : Access ε → Option Read
  | .getPc _ => some .pc
  | .getRegister .. => some .register
  | .getMemory .. => some .cell
  | .setPc _ | .setRegister .. | .setMemory .. | .raise _ => none

/-- A question whose parts have the widths that the interpreter sees to. -/
def Query.Fits (xlen : Nat) : Query → Prop
  | .pc => True
  | .register id => id.width = Violation.registerIdBits
  | .memory address => address.width = xlen

def Change.Fits (xlen : Nat) : Change ε → Prop
  | .pc value => value.width = xlen
  | .register id value => id.width = Violation.registerIdBits ∧ value.width = xlen
  | .memory address value => address.width = xlen ∧ value.width = Violation.cellBits
  | .raise _ => True

/-- From the states that `valid` admits on, the machine serves every access whose
    parts have the right widths. It does not fault, answers each kind of read at
    its own width, and stays in such states. -/
structure Machine.Serves [Machine σ ε] (valid : σ → Prop) (widths : Widths) : Prop where
  ask : ∀ {s : σ} {q : Query}, valid s → q.Fits (Machine.xlen σ) →
    ∃ value s', (q.ask : Action σ Bits) s = (.ok value, s') ∧ value.width = widths.of q.read ∧ valid s'
  make : ∀ {s : σ} {c : Change ε}, valid s → c.Fits (Machine.xlen σ) →
    ∃ s', (c.make : Action σ Unit) s = (.ok (), s') ∧ valid s'

/-- Every hart serves every access, at its register width and by the byte. -/
theorem Hart.serves (x : Xlen) :
    Machine.Serves (fun _ : Hart x => True) ⟨x.bits, x.bits, Violation.cellBits⟩ where
  ask := by
    intro hart q _ hfits
    cases q with
    | pc => exact ⟨_, _, rfl, rfl, trivial⟩
    | register id =>
      obtain ⟨_, hget⟩ := getRegister_eq hfits hart
      exact ⟨_, _, hget, rfl, trivial⟩
    | memory address => exact ⟨_, _, rfl, rfl, trivial⟩
  make := by
    intro hart c _ hfits
    cases c with
    | pc value => exact ⟨_, rfl, trivial⟩
    | register id value =>
      obtain ⟨_, hset⟩ := setRegister_eq hfits.1 value hart
      exact ⟨_, hset, trivial⟩
    | memory address value => exact ⟨_, rfl, trivial⟩
    | raise cause => exact ⟨_, rfl, trivial⟩

theorem Sparse.read_eq (width value : Sparse → Nat) {sparse : Sparse} (hwidth : width sparse ≤ 64) :
    Sparse.read width value sparse =
      (.ok ⟨width sparse, BitVec.ofNat (width sparse) (value sparse), hwidth⟩, sparse) := by
  change (Bits.ofNat (width sparse) (value sparse), sparse) = _
  rw [Bits.ofNat, dif_pos hwidth]

theorem Sparse.widths_putRegister (sparse : Sparse) (index n : Nat) :
    (sparse.putRegister index n).widths = sparse.widths := by
  unfold putRegister
  split
  · rfl
  · rfl

/-- A sparse machine keeps to its widths, provided that vectors can have them. -/
theorem Sparse.serves {widths : Sparse.Widths} (hpc : widths.pc ≤ 64)
    (hregister : widths.register ≤ 64) (hcell : widths.cell ≤ 64) :
    Machine.Serves (fun sparse : Sparse => sparse.widths = widths)
      ⟨widths.pc, widths.register, widths.cell⟩ where
  ask := by
    intro sparse q hvalid _
    subst hvalid
    cases q with
    | pc => exact ⟨_, sparse, read_eq (·.widths.pc) Sparse.pc hpc, rfl, rfl⟩
    | register id =>
      exact ⟨_, sparse, read_eq (·.widths.register) (·.register id.toNat) hregister, rfl, rfl⟩
    | memory address =>
      exact ⟨_, sparse, read_eq (·.widths.cell) (·.cell address.toNat) hcell, rfl, rfl⟩
  make := by
    intro sparse c hvalid _
    cases c with
    | pc value => exact ⟨_, rfl, hvalid⟩
    | register id value =>
      refine ⟨_, rfl, ?_⟩
      exact (sparse.widths_putRegister id.toNat value.toNat).trans hvalid
    | memory address value => exact ⟨_, rfl, hvalid⟩
    | raise cause => exact ⟨_, rfl, hvalid⟩

theorem Recorded.serves [Machine σ ε] {valid : σ → Prop} {widths : Machine.Widths}
    (hserves : Machine.Serves valid widths) :
    Machine.Serves (fun recorded : Recorded σ ε => valid recorded.machine) widths where
  ask := by
    intro recorded q hvalid hfits
    obtain ⟨value, s', hask, hwidth, hvalid'⟩ := hserves.ask hvalid hfits
    exact ⟨value, _, ask_eq hask recorded.record, hwidth, hvalid'⟩
  make := by
    intro recorded c hvalid hfits
    obtain ⟨s', hmake, hvalid'⟩ := hserves.make hvalid hfits
    exact ⟨_, make_eq hmake recorded.record, hvalid'⟩

@[simp] theorem Query.read?_access (q : Query) (value : Bits) :
    (q.access value : Access ε).read? = some q.read := by
  cases q <;> rfl

@[simp] theorem Change.read?_access (c : Change ε) : c.access.read? = none := by
  cases c <;> rfl

end RiscvSemantics
