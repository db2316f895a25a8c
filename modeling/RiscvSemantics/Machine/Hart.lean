import RiscvSemantics.Isa.Cause
import RiscvSemantics.Isa.Xlen
import RiscvSemantics.Machine.Basic
import RiscvSemantics.Machine.Ram

namespace RiscvSemantics

/-- A hart with 32 integer registers and one flat memory that starts at address 0.
    Register 0 needs no place of its own, so its slot holds the program counter. -/
structure Hart (x : Xlen) where
  slots : Vector (BitVec x.bits) 32
  ram : ByteArray
  extensions : Extensions
  trap : Option Cause

namespace Hart

variable {x : Xlen}

/-- A hart with all registers, the program counter and the memory zero. -/
def new (x : Xlen) (ramSize : Nat) (extensions : Extensions) : Hart x :=
  ⟨Vector.replicate 32 0#x.bits, Ram.zeros ramSize, extensions, none⟩

def pc (hart : Hart x) : BitVec x.bits :=
  hart.slots[0]

/-- Sets the program counter, keeping the low bits of the number. -/
def putPc (hart : Hart x) (n : Nat) : Hart x :=
  { hart with slots := hart.slots.set 0 (BitVec.ofNat x.bits n) }

/-- The value of a register; register 0 is zero. -/
def register (hart : Hart x) (index : Fin 32) : BitVec x.bits :=
  if index = 0 then 0#x.bits else hart.slots[index]

/-- Sets a register, keeping the low bits of the number. Register 0 stays zero. -/
def putRegister (hart : Hart x) (index : Fin 32) (n : Nat) : Hart x :=
  if index = 0 then hart
  else { hart with slots := hart.slots.set index (BitVec.ofNat x.bits n) }

def setExtensions (hart : Hart x) (extensions : Extensions) : Hart x :=
  { hart with extensions }

/-- Makes a cause pending, unless one is: the first one is kept. -/
def raise (hart : Hart x) (cause : Cause) : Hart x :=
  { hart with trap := hart.trap.or (some cause) }

/-- Forgets the pending cause. -/
def clearTrap (hart : Hart x) : Hart x :=
  { hart with trap := none }

/-- Reads a byte; beyond the memory that is zero and a load fault. -/
def load (hart : Hart x) (address : Nat) : UInt8 × Hart x :=
  if h : address < hart.ram.size then (hart.ram[address], hart) else (0, hart.raise .loadFault)

/-- Writes a byte; beyond the memory nothing is written, which is a store fault. -/
def store (hart : Hart x) (address : Nat) (byte : UInt8) : Hart x :=
  if h : address < hart.ram.size then { hart with ram := hart.ram.set address byte h }
  else hart.raise .storeFault

/-- Sets a byte of the memory in place, without any trap; beyond the memory nothing
    is written. -/
def putByte (hart : Hart x) (address : Nat) (byte : UInt8) : Hart x :=
  if h : address < hart.ram.size then { hart with ram := hart.ram.set address byte h } else hart

/-- A number as the index of a register. -/
def registerIndex (n : Nat) : Except Fault (Fin 32) :=
  if h : n < 32 then .ok ⟨n, h⟩ else .error (.registerOutOfRange n)

instance : Machine (Hart x) Cause where
  xlen := x.bits
  xlen_le := x.bits_le
  extensions := Hart.extensions
  getPc := do
    let hart ← get
    pure ⟨x.bits, hart.pc, x.bits_le⟩
  setPc value := modify (·.putPc value.toNat)
  getRegister id := do
    let index ← registerIndex id.toNat
    let hart ← get
    pure ⟨x.bits, hart.register index, x.bits_le⟩
  setRegister id value := do
    let index ← registerIndex id.toNat
    modify (·.putRegister index value.toNat)
  getMemory address := do
    let byte ← modifyGet (·.load address.toNat)
    pure (Bits.ofByte byte.toBitVec)
  setMemory address value := modify (·.store address.toNat (UInt8.ofNat value.toNat))
  raise cause := modify (·.raise cause)
  pending := Hart.trap

instance : PolledMachine (Hart x) Cause where

end Hart

end RiscvSemantics
