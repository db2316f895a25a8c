import RiscvSemantics.Isa.Xlen
import RiscvSemantics.Machine.Basic
import Std.Data.TreeMap.Basic

namespace RiscvSemantics

/-- One thing done to a probe, with the numbers that it was given. -/
inductive Probe.Call (ε : Type) where
  | getPc
  | setPc (n : Nat)
  | getRegister (id : Nat)
  | setRegister (id n : Nat)
  | getMemory (address : Nat)
  | setMemory (address n : Nat)
  | raise (cause : ε)
deriving DecidableEq

/-- A machine that tells afterwards what was done to it. It keeps every access, and counts how often
    it was asked for its pending cause, which is the first one that was raised. Memory holds a byte
    at every address; the tester may have cells read back at another width than eight. -/
structure Probe (ε : Type) where
  pc : Nat
  registers : Vector Nat 32
  memory : Std.TreeMap Nat (BitVec 8)
  trap : Option ε
  cellWidth : Option Nat
  calls : Array (Probe.Call ε)
  statusChecks : Nat

namespace Probe

variable {ε : Type}

def new : Probe ε :=
  ⟨0, Vector.replicate 32 0, ∅, none, none, #[], 0⟩

/-- Keeps a call. -/
def keep (probe : Probe ε) (call : Call ε) : Probe ε :=
  { probe with calls := probe.calls.push call }

/-- A number as the index of a register. -/
def registerIndex (n : Nat) : Except Fault (Fin 32) :=
  if h : n < 32 then .ok ⟨n, h⟩ else .error (.indexOutOfBounds 32 n)

/-- The value of a register; register 0 is zero. -/
def register (probe : Probe ε) (n : Nat) : Except Fault Bits :=
  if n = 0 then Bits.zero 32
  else do
    let index ← registerIndex n
    Bits.ofNat 32 (probe.registers.get index)

/-- Sets a register; register 0 stays as it is. -/
def putRegister (probe : Probe ε) (n value : Nat) : Except Fault (Probe ε) :=
  if n = 0 then pure probe
  else do
    let index ← registerIndex n
    pure { probe with registers := probe.registers.setIfInBounds index value }

/-- The byte at an address, at the width of the cells. -/
def cell (probe : Probe ε) (address : Nat) : Except Fault Bits :=
  Bits.ofNat (probe.cellWidth.getD 8) (probe.memory.getD address 0#8).toNat

/-- Keeps a call that reads something. -/
def read (call : Call ε) (value : Probe ε → Except Fault Bits) : Action (Probe ε) Bits := fun probe =>
  (value probe, probe.keep call)

/-- Keeps a call and makes a change. -/
def change (call : Call ε) (next : Probe ε → Except Fault (Probe ε)) : Action (Probe ε) Unit := fun probe =>
  match next (probe.keep call) with
  | .ok probe => (.ok (), probe)
  | .error fault => (.error fault, probe.keep call)

instance : Machine (Probe ε) ε where
  xlen := 32
  xlen_le := Xlen.rv32.bits_le
  getPc := read .getPc fun probe => Bits.ofNat 32 probe.pc
  setPc value := change (.setPc value.toNat) fun probe => pure { probe with pc := value.toNat }
  getRegister id := read (.getRegister id.toNat) (·.register id.toNat)
  setRegister id value :=
    change (.setRegister id.toNat value.toNat) (·.putRegister id.toNat value.toNat)
  getMemory address := read (.getMemory address.toNat) (·.cell address.toNat)
  setMemory address value :=
    change (.setMemory address.toNat value.toNat) fun probe =>
      pure { probe with memory := probe.memory.insert address.toNat (BitVec.ofNat 8 value.toNat) }
  raise cause :=
    change (.raise cause) fun probe => pure { probe with trap := probe.trap.or (some cause) }
  pending := Probe.trap

instance : PolledMachine (Probe ε) ε where
  polled probe := { probe with statusChecks := probe.statusChecks + 1 }

end Probe

end RiscvSemantics
