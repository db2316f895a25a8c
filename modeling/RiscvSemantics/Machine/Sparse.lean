import RiscvSemantics.Isa.Cause
import RiscvSemantics.Isa.Xlen
import RiscvSemantics.Machine.Basic
import Std.Data.TreeMap.Basic

namespace RiscvSemantics

/-- The widths at which a sparse machine answers reads. -/
structure Sparse.Widths where
  pc : Nat
  register : Nat
  cell : Nat

/-- A machine for trying formulas out. Memory holds a number at every address, and
    reads come back at widths of the tester's choice, so that a formula can be shown
    values of the wrong width. Nothing on it traps by itself, and the last cause that
    was raised is the pending one. -/
structure Sparse where
  widths : Sparse.Widths
  pc : Nat
  registers : Vector Nat 32
  cells : Std.TreeMap Nat Nat
  trap : Option Cause

namespace Sparse

def new (widths : Widths) : Sparse :=
  ⟨widths, 0, Vector.replicate 32 0, ∅, none⟩

def putPc (sparse : Sparse) (n : Nat) : Sparse :=
  { sparse with pc := n }

/-- The number in a register; indices count modulo 32. -/
def register (sparse : Sparse) (index : Nat) : Nat :=
  sparse.registers.get ⟨index % 32, Nat.mod_lt _ (by decide)⟩

/-- Sets a register; register 0 stays zero. -/
def putRegister (sparse : Sparse) (index n : Nat) : Sparse :=
  if index % 32 = 0 then sparse
  else
    { sparse with
      registers := sparse.registers.set (index % 32) n (Nat.mod_lt _ (by decide)) }

/-- The number at an address. -/
def cell (sparse : Sparse) (address : Nat) : Nat :=
  sparse.cells.getD address 0

def putCell (sparse : Sparse) (address n : Nat) : Sparse :=
  { sparse with cells := sparse.cells.insert address n }

def clearTrap (sparse : Sparse) : Sparse :=
  { sparse with trap := none }

/-- A value as it is read back at a width. -/
def read (width : Sparse → Nat) (value : Sparse → Nat) : Action Sparse Bits := do
  let sparse ← get
  Bits.ofNat (width sparse) (value sparse)

instance : Machine Sparse Cause where
  xlen := 32
  xlen_le := Xlen.rv32.bits_le
  getPc := read (·.widths.pc) Sparse.pc
  setPc value := modify (·.putPc value.toNat)
  getRegister id := read (·.widths.register) (·.register id.toNat)
  setRegister id value := modify (·.putRegister id.toNat value.toNat)
  getMemory address := read (·.widths.cell) (·.cell address.toNat)
  setMemory address value := modify (·.putCell address.toNat value.toNat)
  raise cause := modify fun sparse => { sparse with trap := some cause }
  pending := Sparse.trap

instance : PolledMachine Sparse Cause where

end Sparse

end RiscvSemantics
