import RiscvSemantics.Bits.Basic
import RiscvSemantics.Isa.Extensions

namespace RiscvSemantics

/-- What is done to a machine. It may change the machine, also when it breaks off
    with a fault. -/
abbrev Action (σ : Type) := ExceptT Fault (StateM σ)

/-- What formulas can do to a machine with state `σ` that traps for causes of type
    `ε`. Reading is an action too, since a machine may count or refuse reads. An
    access that a machine cannot serve raises a cause on the machine itself and
    gives something harmless.

    Addresses, registers and the program counter are `xlen` bits wide, register
    indices five and memory cells eight; a machine may depart from that, and the
    interpreter then reports it. -/
class Machine (σ : Type) (ε : outParam Type) where
  xlen : Nat
  xlen_le : xlen ≤ 64
  /-- Which extensions are switched on. To ask is no action: it leaves the machine as it is. -/
  extensions : σ → Extensions := fun _ => Extensions.none
  getPc : Action σ Bits
  setPc (value : Bits) : Action σ Unit
  /-- Register 0 reads as zero. -/
  getRegister (id : Bits) : Action σ Bits
  /-- Writes to register 0 are dropped. -/
  setRegister (id value : Bits) : Action σ Unit
  /-- Reads one byte. -/
  getMemory (address : Bits) : Action σ Bits
  /-- Writes one byte. -/
  setMemory (address value : Bits) : Action σ Unit
  raise (cause : ε) : Action σ Unit
  /-- The cause that a trap is pending for. To ask is no action; a machine that it changes is a
      `PolledMachine`. -/
  pending : σ → Option ε

/-- A machine that is asked for its pending cause by an action, which may change it: it may count
    how often it is asked. -/
class PolledMachine (σ : Type) (ε : outParam Type) extends Machine σ ε where
  /-- What a machine is once it has been asked. -/
  polled : σ → σ := id

/-- A number as a vector of register width. -/
def Machine.word (σ : Type) {ε : Type} [Machine σ ε] (n : Nat) : Bits :=
  ⟨xlen σ, BitVec.ofNat (xlen σ) n, xlen_le⟩

/-- Asks for the pending cause of a machine that stays as it is. -/
@[inline] def Machine.glance {σ ε : Type} [Machine σ ε] : StateM σ (Option ε) := fun s =>
  (pending s, s)

/-- Asks for the pending cause of a machine that this may change. -/
@[inline] def PolledMachine.poll {σ ε : Type} [PolledMachine σ ε] : StateM σ (Option ε) := fun s =>
  (Machine.pending s, polled s)

/-- Why an interpretation broke off: a fault of whoever built the operation, or an
    error that is reported. -/
inductive Stop (ε : Type) where
  | fault (fault : Fault)
  | error (error : ε)
deriving DecidableEq

def Stop.map {ε δ : Type} (f : ε → δ) : Stop ε → Stop δ
  | .fault x => .fault x
  | .error e => .error (f e)

/-- A computation on a machine with state `σ` that reports errors of type `ε`. -/
abbrev Interpretation (σ ε : Type) := ExceptT (Stop ε) (StateM σ)

namespace Interpretation

variable {σ ε α : Type}

/-- An action on the machine as a part of an interpretation. -/
def act (action : Action σ α) : Interpretation σ ε α :=
  ExceptT.adapt Stop.fault action

/-- A step whose precondition is the caller's business. -/
def guarded : Except Fault α → Interpretation σ ε α
  | .ok a => pure a
  | .error fault => throw (.fault fault)

/-- A check that reports an error. -/
def checked : Except ε α → Interpretation σ ε α
  | .ok a => pure a
  | .error e => throw (.error e)

end Interpretation

end RiscvSemantics
