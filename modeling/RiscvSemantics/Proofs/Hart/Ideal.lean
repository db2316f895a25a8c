import Mathlib.Algebra.Group.Nat.Defs
import RiscvSemantics.Machine.Hart

namespace RiscvSemantics.Hart

/-- What can be done to a hart with so many bytes of memory, be it by a formula or by whoever
    owns the hart. -/
inductive Operation (size : Nat) where
  | getPc
  | setPc (value : Bits)
  | getRegister (id : BitVec 5)
  | setRegister (id : BitVec 5) (value : Bits)
  | getMemory (address : Bits)
  | setMemory (address value : Bits)
  | raise (cause : Cause)
  | pending
  | enabled
  | pc
  | putPc (n : Nat)
  | register (index : Fin 32)
  | putRegister (index : Fin 32) (n : Nat)
  | setExtensions (extensions : Extensions)
  | clearTrap
  | ram
  | putByte (address : Fin size) (byte : UInt8)

/-- What there is to see of an operation. -/
inductive Observation where
  | nothing
  | vector (width n : Nat)
  | number (n : Nat)
  | trap (cause? : Option Cause)
  | extensions (extensions : Extensions)
  | bytes (bytes : List Nat)
deriving DecidableEq

def Observation.ofBits (value : Bits) : Observation :=
  .vector value.width value.toNat

theorem idWidth_le : 5 ≤ 64 := by
  decide

/-- What an operation does to a hart. -/
def Operation.perform {x : Xlen} {size : Nat} : Operation size → Action (Hart x) Observation
  | .getPc => do
    let value ← Machine.getPc
    pure (.ofBits value)
  | .setPc value => do
    Machine.setPc value
    pure .nothing
  | .getRegister id => do
    let value ← Machine.getRegister ⟨5, id, idWidth_le⟩
    pure (.ofBits value)
  | .setRegister id value => do
    Machine.setRegister ⟨5, id, idWidth_le⟩ value
    pure .nothing
  | .getMemory address => do
    let cell ← Machine.getMemory address
    pure (.ofBits cell)
  | .setMemory address value => do
    Machine.setMemory address value
    pure .nothing
  | .raise cause => do
    Machine.raise cause
    pure .nothing
  | .pending => do
    let hart ← get
    pure (.trap (Machine.pending hart))
  | .enabled => do
    let hart ← get
    pure (.extensions (Machine.extensions hart))
  | .pc => do
    let hart ← get
    pure (.number hart.pc.toNat)
  | .putPc n => do
    modify (·.putPc n)
    pure .nothing
  | .register index => do
    let hart ← get
    pure (.number (hart.register index).toNat)
  | .putRegister index n => do
    modify (·.putRegister index n)
    pure .nothing
  | .setExtensions extensions => do
    modify (·.setExtensions extensions)
    pure .nothing
  | .clearTrap => do
    let hart ← get
    set hart.clearTrap
    pure (.trap hart.trap)
  | .ram => do
    let hart ← get
    pure (.bytes (hart.ram.data.toList.map UInt8.toNat))
  | .putByte address byte => do
    modify (·.putByte address byte)
    pure .nothing

/-- What operations do to a hart one after the other, with all that there is to see of them. -/
def Operation.performAll {x : Xlen} {size : Nat} :
    List (Operation size) → Action (Hart x) (List Observation)
  | [] => pure []
  | operation :: rest => do
    let seen ← operation.perform
    let more ← performAll rest
    pure (seen :: more)

/-- The hart that is meant: it has a program counter apart from its registers, and all that it
    holds are numbers. -/
structure Ideal (width size : Nat) where
  pc : Nat
  registers : Fin 32 → Nat
  ram : Fin size → Nat
  extensions : Extensions
  trap : Option Cause

namespace Ideal

variable {width size : Nat}

def new (width size : Nat) (extensions : Extensions) : Ideal width size :=
  ⟨0, fun _ => 0, fun _ => 0, extensions, none⟩

/-- Register 0 reads as zero. -/
def register (ideal : Ideal width size) (index : Fin 32) : Nat :=
  if index.val = 0 then 0 else ideal.registers index

def putPc (ideal : Ideal width size) (n : Nat) : Ideal width size :=
  { ideal with pc := n % 2 ^ width }

/-- Writes to register 0 vanish. -/
def putRegister (ideal : Ideal width size) (index : Fin 32) (n : Nat) : Ideal width size :=
  if index.val = 0 then ideal
  else { ideal with registers := fun i => if i = index then n % 2 ^ width else ideal.registers i }

def putByte (ideal : Ideal width size) (address : Fin size) (n : Nat) : Ideal width size :=
  { ideal with ram := fun i => if i = address then n % 256 else ideal.ram i }

/-- Only the first cause is kept. -/
def raise (ideal : Ideal width size) (cause : Cause) : Ideal width size :=
  match ideal.trap with
  | none => { ideal with trap := some cause }
  | some _ => ideal

/-- Beyond the memory, zero is read and that is a load fault. -/
def load (ideal : Ideal width size) (address : Nat) : Nat × Ideal width size :=
  if h : address < size then (ideal.ram ⟨address, h⟩, ideal) else (0, ideal.raise .loadFault)

/-- Beyond the memory, nothing is written and that is a store fault. -/
def store (ideal : Ideal width size) (address n : Nat) : Ideal width size :=
  if h : address < size then ideal.putByte ⟨address, h⟩ n else ideal.raise .storeFault

/-- What an operation does to the hart that is meant. -/
def perform (ideal : Ideal width size) : Operation size → Observation × Ideal width size
  | .getPc => (.vector width ideal.pc, ideal)
  | .setPc value => (.nothing, ideal.putPc value.toNat)
  | .getRegister id => (.vector width (ideal.register id.toFin), ideal)
  | .setRegister id value => (.nothing, ideal.putRegister id.toFin value.toNat)
  | .getMemory address =>
    let (cell, after) := ideal.load address.toNat
    (.vector 8 cell, after)
  | .setMemory address value => (.nothing, ideal.store address.toNat value.toNat)
  | .raise cause => (.nothing, ideal.raise cause)
  | .pending => (.trap ideal.trap, ideal)
  | .enabled => (.extensions ideal.extensions, ideal)
  | .pc => (.number ideal.pc, ideal)
  | .putPc n => (.nothing, ideal.putPc n)
  | .register index => (.number (ideal.register index), ideal)
  | .putRegister index n => (.nothing, ideal.putRegister index n)
  | .setExtensions extensions => (.nothing, { ideal with extensions })
  | .clearTrap => (.trap ideal.trap, { ideal with trap := none })
  | .ram => (.bytes (List.ofFn ideal.ram), ideal)
  | .putByte address byte => (.nothing, ideal.putByte address byte.toNat)

def performAll (ideal : Ideal width size) : List (Operation size) → List Observation × Ideal width size
  | [] => ([], ideal)
  | operation :: rest =>
    let (seen, next) := ideal.perform operation
    let (more, last) := next.performAll rest
    (seen :: more, last)

/-- The numbers fit where a hart holds them. -/
structure InRange (ideal : Ideal width size) : Prop where
  pc : ideal.pc < 2 ^ width
  register : ∀ index, ideal.register index < 2 ^ width
  ram : ∀ address, ideal.ram address < 256

end Ideal

end RiscvSemantics.Hart
