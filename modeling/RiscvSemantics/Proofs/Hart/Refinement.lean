import RiscvSemantics.Proofs.Hart.Ideal
import RiscvSemantics.Proofs.Hart.View
import RiscvSemantics.Proofs.Machine.Interpretation

namespace RiscvSemantics.Hart

open Interpretation

namespace Ideal

variable {width size : Nat} (ideal : Ideal width size)

theorem register_putRegister (index other : Fin 32) (n : Nat) :
    (ideal.putRegister index n).register other =
      if other = index ∧ other.val ≠ 0 then n % 2 ^ width else ideal.register other := by
  by_cases hother : other.val = 0
  · have hzero : ¬(other = index ∧ other.val ≠ 0) := fun h => h.2 hother
    rw [if_neg hzero, register, register, if_pos hother, if_pos hother]
  · rw [register, register, if_neg hother, if_neg hother, putRegister]
    by_cases hindex : other = index
    · subst hindex
      rw [if_neg hother, if_pos ⟨rfl, hother⟩]
      exact if_pos rfl
    · have hne : ¬(other = index ∧ other.val ≠ 0) := fun h => hindex h.1
      rw [if_neg hne]
      split
      · rfl
      · exact if_neg hindex

theorem putRegister_eq (index : Fin 32) (n : Nat) :
    ∃ registers, ideal.putRegister index n = { ideal with registers } := by
  rw [putRegister]
  split
  · exact ⟨ideal.registers, rfl⟩
  · exact ⟨_, rfl⟩

theorem raise_eq (cause : Cause) : ideal.raise cause = { ideal with trap := ideal.trap.or (some cause) } := by
  obtain ⟨pc, registers, ram, extensions, trap⟩ := ideal
  cases trap with
  | none => rfl
  | some first => rfl

end Ideal

namespace View

variable {width size : Nat} {view : View width} {ideal : Ideal width size}

/-- What can be seen of a hart are the numbers of the hart that is meant. -/
structure Refines (view : View width) (ideal : Ideal width size) : Prop where
  pc : view.pc.toNat = ideal.pc
  register : ∀ index, (view.registers index).toNat = ideal.register index
  size_eq : view.ram.size = size
  byte : ∀ address : Fin size, view.byte address = ideal.ram address
  extensions : view.extensions = ideal.extensions
  trap : view.trap = ideal.trap

/-- The memory is the bytes at its addresses. -/
theorem bytes_eq (view : View width) :
    view.ram.data.toList.map UInt8.toNat =
      List.ofFn fun address : Fin view.ram.size => view.byte address := by
  apply List.ext_getElem
  · rw [List.length_map, Array.length_toList, ByteArray.size_data, List.length_ofFn]
  · intro i hi hi'
    rw [List.length_ofFn] at hi'
    rw [List.getElem_map, List.getElem_ofFn, byte, dif_pos hi', Array.getElem_toList]
    rfl

namespace Refines

theorem inRange (h : view.Refines ideal) : ideal.InRange where
  pc := by
    rw [← h.pc]
    exact view.pc.isLt
  register index := by
    rw [← h.register]
    exact (view.registers index).isLt
  ram address := by
    have haddress : address.val < view.ram.size := h.size_eq.symm ▸ address.isLt
    rw [← h.byte, View.byte, dif_pos haddress]
    exact UInt8.toNat_lt _

theorem bytes (h : view.Refines ideal) :
    view.ram.data.toList.map UInt8.toNat = List.ofFn ideal.ram := by
  obtain rfl := h.size_eq
  rw [bytes_eq]
  exact congrArg List.ofFn (funext h.byte)

theorem le_iff (h : view.Refines ideal) (address : Nat) : view.ram.size ≤ address ↔ ¬address < size := by
  rw [h.size_eq]
  exact Nat.not_lt.symm

theorem putPc (h : view.Refines ideal) (n : Nat) :
    { view with pc := BitVec.ofNat width n }.Refines (ideal.putPc n) :=
  { h with pc := BitVec.toNat_ofNat n width }

theorem setRegister (h : view.Refines ideal) (index : Fin 32) (n : Nat) :
    (view.setRegister index (BitVec.ofNat width n)).Refines (ideal.putRegister index n) := by
  have hregister : ∀ other, ((view.setRegister index (BitVec.ofNat width n)).registers other).toNat =
      (ideal.putRegister index n).register other := by
    intro other
    rw [ideal.register_putRegister, ← h.register, ← BitVec.toNat_ofNat]
    exact apply_ite BitVec.toNat _ _ _
  obtain ⟨registers, hput⟩ := ideal.putRegister_eq index n
  rw [hput] at hregister ⊢
  exact { h with register := hregister }

theorem setByte (h : view.Refines ideal) (address : Fin size) (n : Nat) :
    (view.setByte address (UInt8.ofNat n)).Refines (ideal.putByte address n) := by
  have haddress : address.val < view.ram.size := h.size_eq.symm ▸ address.isLt
  have hsize : (view.setByte address (UInt8.ofNat n)).ram.size = size :=
    (view.size_setByte _ _).trans h.size_eq
  refine { h with size_eq := hsize, byte := ?_ }
  intro other
  by_cases hother : other = address
  · subst hother
    rw [view.byte_setByte_self _ _ haddress, UInt8.toNat_ofNat']
    exact (if_pos rfl).symm
  · have hne : other.val ≠ address.val := fun heq => hother (Fin.ext heq)
    rw [view.byte_setByte_ne _ _ hne, h.byte]
    exact (if_neg hother).symm

theorem raise (h : view.Refines ideal) (cause : Cause) : (view.raise cause).Refines (ideal.raise cause) := by
  rw [ideal.raise_eq]
  exact { h with trap := congrArg (·.or (some cause)) h.trap }

end Refines

end View

variable {x : Xlen} {size : Nat}

theorem view_putByte (hart : Hart x) (address : Nat) (byte : UInt8) :
    (hart.putByte address byte).view = hart.view.setByte address byte := by
  by_cases haddress : address < hart.view.ram.size
  · have hput : hart.putByte address byte = { hart with ram := hart.view.ram.set address byte haddress } :=
      dif_pos haddress
    rw [hput, View.setByte, dif_pos haddress]
    rfl
  · have hput : hart.putByte address byte = hart := dif_neg haddress
    rw [hput, View.setByte, dif_neg haddress]

theorem refines_new (x : Xlen) (size : Nat) (extensions : Extensions) :
    (Hart.new x size extensions).view.Refines (Ideal.new x.bits size extensions) where
  pc := by
    have hpc : (Hart.new x size extensions).pc = 0#x.bits := Vector.getElem_replicate ..
    exact congrArg BitVec.toNat hpc
  register index := by
    have hregister : (Hart.new x size extensions).register index = 0#x.bits := by
      rw [register]
      split
      · rfl
      · exact Vector.getElem_replicate ..
    have hideal : (Ideal.new x.bits size extensions).register index = 0 := by
      rw [Ideal.register]
      split
      · rfl
      · rfl
    rw [hideal]
    exact congrArg BitVec.toNat hregister
  size_eq := Ram.size_zeros size
  byte address := by
    have haddress : address.val < (Ram.zeros size).size := (Ram.size_zeros size).symm ▸ address.isLt
    have hbyte : (Ram.zeros size)[address.val] = 0 := by
      simp only [ByteArray.getElem_eq_getElem_data, Ram.data_zeros, Array.getElem_replicate]
    exact (dif_pos haddress).trans (congrArg UInt8.toNat hbyte)
  extensions := rfl
  trap := rfl

section Step

variable {hart : Hart x} {ideal : Ideal x.bits size}

theorem refines_load (h : hart.view.Refines ideal) (address : Nat) :
    (hart.load address).1.toNat = (ideal.load address).1 ∧
      (hart.load address).2.view.Refines (ideal.load address).2 := by
  obtain ⟨hcell, hafter⟩ := hart.load_eq address
  rw [hcell, hafter]
  by_cases haddress : address < size
  · have hinside : ¬hart.view.ram.size ≤ address := fun hle => (h.le_iff address).mp hle haddress
    rw [View.raiseIf_of_neg _ _ hinside, Ideal.load, dif_pos haddress]
    exact ⟨h.byte ⟨address, haddress⟩, h⟩
  · have hbeyond : hart.view.ram.size ≤ address := (h.le_iff address).mpr haddress
    rw [View.raiseIf_of_pos _ _ hbeyond, Ideal.load, dif_neg haddress]
    exact ⟨dif_neg (Nat.not_lt.mpr hbeyond), h.raise .loadFault⟩

theorem refines_store (h : hart.view.Refines ideal) (address n : Nat) :
    (hart.store address (UInt8.ofNat n)).view.Refines (ideal.store address n) := by
  rw [view_store]
  by_cases haddress : address < size
  · have hinside : ¬hart.view.ram.size ≤ address := fun hle => (h.le_iff address).mp hle haddress
    rw [View.raiseIf_of_neg _ _ hinside, Ideal.store, dif_pos haddress]
    exact h.setByte ⟨address, haddress⟩ n
  · have hbeyond : hart.view.ram.size ≤ address := (h.le_iff address).mpr haddress
    have hkept : hart.view.setByte address (UInt8.ofNat n) = hart.view := by
      rw [View.setByte, dif_neg (Nat.not_lt.mpr hbeyond)]
    rw [hkept, View.raiseIf_of_pos _ _ hbeyond, Ideal.store, dif_neg haddress]
    exact h.raise .storeFault

/-- An operation on a hart goes as on the hart that is meant, and cannot break off. -/
theorem refines_perform (h : hart.view.Refines ideal) (operation : Operation size) :
    ∃ after : Hart x, operation.perform hart = (.ok (ideal.perform operation).1, after) ∧
      after.view.Refines (ideal.perform operation).2 := by
  cases operation with
  | getPc =>
    refine ⟨hart, ?_, h⟩
    rw [Ideal.perform, ← h.pc]
    rfl
  | setPc value =>
    refine ⟨hart.putPc value.toNat, rfl, ?_⟩
    rw [view_putPc]
    exact h.putPc value.toNat
  | getRegister id =>
    have hid : (⟨5, id, idWidth_le⟩ : Bits).width = 5 := rfl
    obtain ⟨hlt, hget⟩ := hart.getRegister_eq hid
    refine ⟨hart, ?_, h⟩
    rw [Ideal.perform, ← h.register]
    exact bind_of_ok hget _
  | setRegister id value =>
    have hid : (⟨5, id, idWidth_le⟩ : Bits).width = 5 := rfl
    obtain ⟨hlt, hset⟩ := hart.setRegister_eq hid value
    refine ⟨hart.putRegister id.toFin value.toNat, bind_of_ok hset _, ?_⟩
    rw [view_putRegister]
    exact h.setRegister id.toFin value.toNat
  | getMemory address =>
    obtain ⟨hcell, hafter⟩ := refines_load h address.toNat
    refine ⟨(hart.load address.toNat).2, ?_, hafter⟩
    change (Except.ok (Observation.vector 8 (hart.load address.toNat).1.toNat), _) = _
    rw [hcell]
    rfl
  | setMemory address value =>
    exact ⟨hart.store address.toNat (UInt8.ofNat value.toNat), rfl, refines_store h address.toNat value.toNat⟩
  | raise cause => exact ⟨hart.raise cause, rfl, h.raise cause⟩
  | pending =>
    refine ⟨hart, ?_, h⟩
    rw [Ideal.perform, ← h.trap]
    rfl
  | enabled =>
    refine ⟨hart, ?_, h⟩
    rw [Ideal.perform, ← h.extensions]
    rfl
  | pc =>
    refine ⟨hart, ?_, h⟩
    rw [Ideal.perform, ← h.pc]
    rfl
  | putPc n =>
    refine ⟨hart.putPc n, rfl, ?_⟩
    rw [view_putPc]
    exact h.putPc n
  | register index =>
    refine ⟨hart, ?_, h⟩
    rw [Ideal.perform, ← h.register]
    rfl
  | putRegister index n =>
    refine ⟨hart.putRegister index n, rfl, ?_⟩
    rw [view_putRegister]
    exact h.setRegister index n
  | setExtensions extensions => exact ⟨hart.setExtensions extensions, rfl, { h with extensions := rfl }⟩
  | clearTrap =>
    refine ⟨hart.clearTrap, ?_, { h with trap := rfl }⟩
    rw [Ideal.perform, ← h.trap]
    rfl
  | ram =>
    refine ⟨hart, ?_, h⟩
    rw [Ideal.perform, ← h.bytes]
    rfl
  | putByte address byte =>
    refine ⟨hart.putByte address byte, rfl, ?_⟩
    have hput := h.setByte address byte.toNat
    rw [UInt8.ofNat_toNat] at hput
    rw [view_putByte]
    exact hput

/-- So do operations one after the other. -/
theorem refines_performAll (h : hart.view.Refines ideal) (operations : List (Operation size)) :
    ∃ after : Hart x, Operation.performAll operations hart = (.ok (ideal.performAll operations).1, after) ∧
      after.view.Refines (ideal.performAll operations).2 := by
  induction operations generalizing hart ideal with
  | nil => exact ⟨hart, rfl, h⟩
  | cons operation rest ih =>
    obtain ⟨next, hfirst, hnext⟩ := refines_perform h operation
    obtain ⟨last, hrest, hlast⟩ := ih hnext
    refine ⟨last, ?_, hlast⟩
    rw [Operation.performAll, bind_of_ok hfirst, bind_of_ok hrest]
    rfl

end Step

/-- A hart is the hart that is meant, whatever the width of its registers and the size of its
    memory: nothing that is done to it breaks off, and there is nothing to see but what there is to
    see of the hart that is meant. So it is nowhere to be seen that the program counter has the
    place of register 0. All numbers stay in their range, and the memory keeps its size. -/
theorem refines_ideal (x : Xlen) (size : Nat) (extensions : Extensions) (operations : List (Operation size)) :
    let meant := (Ideal.new x.bits size extensions).performAll operations
    ∃ after : Hart x, Operation.performAll operations (Hart.new x size extensions) = (.ok meant.1, after) ∧
      after.view.Refines meant.2 ∧ meant.2.InRange ∧ after.ram.size = size := by
  intro meant
  obtain ⟨after, hperform, hafter⟩ := refines_performAll (refines_new x size extensions) operations
  exact ⟨after, hperform, hafter, hafter.inRange, hafter.size_eq⟩

end RiscvSemantics.Hart
