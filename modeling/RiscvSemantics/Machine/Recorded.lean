import RiscvSemantics.Bits.Text
import RiscvSemantics.Machine.Basic

namespace RiscvSemantics

/-- One thing done to a machine that traps for causes of type `ε`, with the value
    read or written. -/
inductive Access (ε : Type) where
  | getPc (value : Bits)
  | setPc (value : Bits)
  | getRegister (id value : Bits)
  | setRegister (id value : Bits)
  | getMemory (address value : Bits)
  | setMemory (address value : Bits)
  | raise (cause : ε)
deriving DecidableEq

/-- The line that an access leaves in a log: an arrow to the right for what was
    read and to the left for what was written. -/
def Access.text {ε : Type} (causeName : ε → String) : Access ε → String
  | .getPc value => s!"pc -> {value.display}"
  | .setPc value => s!"pc <- {value.display}"
  | .getRegister id value => s!"x{id.toNat} -> {value.display}"
  | .setRegister id value => s!"x{id.toNat} <- {value.display}"
  | .getMemory address value => s!"[{address.display}] -> {value.display}"
  | .setMemory address value => s!"[{address.display}] <- {value.display}"
  | .raise cause => s!"throw {causeName cause}"

/-- A machine together with a record of what was done to it. The record holds what
    came in from outside: causes that the machine raises on itself are not in it. -/
structure Recorded (σ ε : Type) where
  machine : σ
  record : Array (Access ε)

namespace Recorded

variable {σ ε α : Type}

/-- A machine with nothing recorded. -/
def new (machine : σ) : Recorded σ ε :=
  ⟨machine, #[]⟩

/-- Does something to the machine that leaves no record. -/
def unrecorded (action : Action σ α) : Action (Recorded σ ε) α := fun recorded =>
  match recorded with
  | ⟨machine, record⟩ =>
    match action machine with
    | (answer, machine) => (answer, ⟨machine, record⟩)

/-- Adds an entry to the record. -/
def note (access : Access ε) : Action (Recorded σ ε) Unit :=
  modify fun recorded => { recorded with record := recorded.record.push access }

/-- Every action is passed on to the machine. A read is recorded once its value is
    known, and a change before it is made. -/
instance [Machine σ ε] : Machine (Recorded σ ε) ε where
  xlen := Machine.xlen σ
  xlen_le := Machine.xlen_le
  extensions recorded := Machine.extensions recorded.machine
  getPc := do
    let value ← unrecorded Machine.getPc
    note (.getPc value)
    pure value
  setPc value := do
    note (.setPc value)
    unrecorded (Machine.setPc value)
  getRegister id := do
    let value ← unrecorded (Machine.getRegister id)
    note (.getRegister id value)
    pure value
  setRegister id value := do
    note (.setRegister id value)
    unrecorded (Machine.setRegister id value)
  getMemory address := do
    let value ← unrecorded (Machine.getMemory address)
    note (.getMemory address value)
    pure value
  setMemory address value := do
    note (.setMemory address value)
    unrecorded (Machine.setMemory address value)
  raise cause := do
    note (.raise cause)
    unrecorded (Machine.raise cause)
  pending recorded := Machine.pending recorded.machine

/-- Asking for the pending cause is passed on too, without an entry. -/
instance [PolledMachine σ ε] : PolledMachine (Recorded σ ε) ε where
  polled recorded := { recorded with machine := PolledMachine.polled recorded.machine }

end Recorded

end RiscvSemantics
