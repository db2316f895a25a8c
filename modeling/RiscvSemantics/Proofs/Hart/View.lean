import RiscvSemantics.Machine.Hart

namespace RiscvSemantics.Hart

/-- What can be seen of a hart with registers of that width: it has a program counter
    of its own, and a register 0 that is zero. -/
structure View (width : Nat) where
  pc : BitVec width
  registers : Fin 32 → BitVec width
  ram : ByteArray
  extensions : Extensions
  trap : Option Cause

namespace View

variable {width : Nat}

/-- Sets a register. Register 0 cannot be set. -/
def setRegister (view : View width) (index : Fin 32) (value : BitVec width) : View width :=
  { view with registers := fun i => if i = index ∧ i.val ≠ 0 then value else view.registers i }

/-- Makes a cause pending, unless one is. -/
def raise (view : View width) (cause : Cause) : View width :=
  { view with trap := view.trap.or (some cause) }

/-- Makes a cause pending if something holds, unless one is. -/
def raiseIf (view : View width) (p : Prop) [Decidable p] (cause : Cause) : View width :=
  { view with trap := if p then view.trap.or (some cause) else view.trap }

/-- Sets the byte at an address. Nothing is set beyond the memory. -/
def setByte (view : View width) (address : Nat) (byte : UInt8) : View width :=
  { view with ram := if h : address < view.ram.size then view.ram.set address byte h else view.ram }

/-- Sets so many bytes one after the other. -/
def setBytes (view : View width) (address : Nat → Nat) (byte : Nat → UInt8) : (count : Nat) → View width
  | 0 => view
  | count + 1 => (setBytes view address byte count).setByte (address count) (byte count)

/-- The byte at an address of the memory, as a number; beyond the memory it is zero. -/
def byte (view : View width) (address : Nat) : Nat :=
  if h : address < view.ram.size then view.ram[address].toNat else 0

section SetRegister

variable (view : View width) (index : Fin 32) (value : BitVec width)

theorem registers_setRegister (other : Fin 32) :
    (view.setRegister index value).registers other =
      if other = index ∧ other.val ≠ 0 then value else view.registers other := rfl

/-- Setting a register to what it holds changes nothing. -/
theorem setRegister_registers : view.setRegister index (view.registers index) = view := by
  have hregisters : (fun i => if i = index ∧ i.val ≠ 0 then view.registers index else view.registers i) =
      view.registers := by
    funext i
    split
    · next hi => rw [hi.1]
    · rfl
  rw [setRegister, hregisters]

/-- Nor does setting register 0. -/
theorem setRegister_zero : view.setRegister 0 value = view := by
  have hregisters : (fun i => if i = 0 ∧ i.val ≠ 0 then value else view.registers i) = view.registers := by
    funext i
    refine if_neg ?_
    rintro ⟨rfl, hne⟩
    exact hne rfl
  rw [setRegister, hregisters]

/-- Of what a register is set to, the last counts. -/
theorem setRegister_setRegister (last : BitVec width) :
    (view.setRegister index value).setRegister index last = view.setRegister index last := by
  refine congrArg (fun registers => { view with registers }) (funext fun i => ?_)
  rw [registers_setRegister]
  split
  · rfl
  · rfl

/-- Two registers can be set in either order. -/
theorem setRegister_comm {other : Fin 32} (hne : index ≠ other) (value' : BitVec width) :
    (view.setRegister index value).setRegister other value' =
      (view.setRegister other value').setRegister index value := by
  refine congrArg (fun registers => { view with registers }) (funext fun i => ?_)
  simp only [registers_setRegister]
  by_cases hi : i = index
  · have hother : ¬(i = other ∧ i.val ≠ 0) := fun h => hne (hi.symm.trans h.1)
    rw [if_neg hother, if_neg hother]
  · have hindex : ¬(i = index ∧ i.val ≠ 0) := fun h => hi h.1
    rw [if_neg hindex, if_neg hindex]

end SetRegister

section RaiseIf

variable (view : View width) {p q : Prop} [Decidable p] [Decidable q] (cause : Cause)

theorem raiseIf_of_pos (hp : p) : view.raiseIf p cause = view.raise cause := by
  rw [raiseIf, if_pos hp, raise]

theorem raiseIf_of_neg (hp : ¬p) : view.raiseIf p cause = view := by
  rw [raiseIf, if_neg hp]

theorem raiseIf_congr (hiff : p ↔ q) : view.raiseIf p cause = view.raiseIf q cause := by
  by_cases hp : p
  · rw [raiseIf_of_pos view cause hp, raiseIf_of_pos view cause (hiff.mp hp)]
  · rw [raiseIf_of_neg view cause hp, raiseIf_of_neg view cause (mt hiff.mpr hp)]

/-- Once a cause has been raised, raising it again changes nothing. -/
theorem raiseIf_raiseIf : (view.raiseIf p cause).raiseIf q cause = view.raiseIf (p ∨ q) cause := by
  by_cases hp : p
  · have hraised : (view.raise cause).raiseIf q cause = view.raise cause := by
      simp only [raiseIf, raise, Option.or_assoc, Option.or_self, ite_self]
    rw [raiseIf_of_pos view cause hp, hraised, raiseIf_of_pos view cause (Or.inl hp)]
  · rw [raiseIf_of_neg view cause hp]
    exact raiseIf_congr view cause (or_iff_right hp).symm

theorem raiseIf_setByte (address : Nat) (byte : UInt8) :
    (view.raiseIf p cause).setByte address byte = (view.setByte address byte).raiseIf p cause := rfl

end RaiseIf

section SetByte

variable (view : View width) (address : Nat) (byte : UInt8)

theorem size_setByte : (view.setByte address byte).ram.size = view.ram.size := by
  simp only [setByte]
  split
  · simp only [← ByteArray.size_data, ByteArray.data_set, Array.size_set]
  · rfl

theorem byte_setByte_self (haddress : address < view.ram.size) :
    (view.setByte address byte).byte address = byte.toNat := by
  have hset : address < (view.setByte address byte).ram.size := by rwa [size_setByte]
  rw [View.byte, dif_pos hset]
  simp only [setByte, haddress, dif_pos, ByteArray.getElem_eq_getElem_data, ByteArray.data_set,
    Array.getElem_set_self]

theorem byte_setByte_ne {other : Nat} (hne : other ≠ address) :
    (view.setByte address byte).byte other = view.byte other := by
  by_cases haddress : address < view.ram.size
  · rw [setByte, dif_pos haddress]
    simp only [View.byte, ← ByteArray.size_data, ByteArray.getElem_eq_getElem_data, ByteArray.data_set,
      Array.size_set, Array.getElem_set, hne.symm, if_false]
  · rw [setByte, dif_neg haddress]

end SetByte

section SetBytes

variable (view : View width) (address : Nat → Nat) (byte : Nat → UInt8) (count : Nat)

/-- Only the memory is changed by setting bytes, and it keeps its size. -/
theorem setBytes_eq :
    ∃ ram, view.setBytes address byte count = { view with ram } ∧ ram.size = view.ram.size := by
  induction count with
  | zero => exact ⟨view.ram, rfl, rfl⟩
  | succ count ih =>
    obtain ⟨ram, hset, hsize⟩ := ih
    refine ⟨_, by rw [setBytes, hset]; rfl, ?_⟩
    exact (size_setByte { view with ram } (address count) (byte count)).trans hsize

theorem byte_setBytes_of_ne {other : Nat} (hne : ∀ k < count, other ≠ address k) :
    (view.setBytes address byte count).byte other = view.byte other := by
  induction count with
  | zero => rfl
  | succ count ih =>
    rw [setBytes, byte_setByte_ne _ _ _ (hne count (Nat.lt_succ_self count)),
      ih fun k hk => hne k (Nat.lt_succ_of_lt hk)]

/-- Of the bytes that are set at one address, the last stays. -/
theorem byte_setBytes_of_last {k : Nat} (hlast : ∀ j, k < j → j < count → address j ≠ address k)
    (hk : k < count) (haddress : address k < view.ram.size) :
    (view.setBytes address byte count).byte (address k) = (byte k).toNat := by
  induction count with
  | zero => omega
  | succ count ih =>
    obtain rfl | hlt := Nat.eq_or_lt_of_le (Nat.le_of_lt_succ hk)
    · obtain ⟨ram, hset, hsize⟩ := view.setBytes_eq address byte k
      rw [setBytes, byte_setByte_self]
      rwa [hset, hsize]
    · rw [setBytes, byte_setByte_ne _ _ _ (hlast count hlt (Nat.lt_succ_self count)).symm]
      exact ih (fun j hkj hj => hlast j hkj (Nat.lt_succ_of_lt hj)) hlt

/-- Where no two addresses are equal, each byte that is set stays. -/
theorem byte_setBytes (hdistinct : ∀ j k, j < k → k < count → address j ≠ address k) {k : Nat}
    (hk : k < count) (haddress : address k < view.ram.size) :
    (view.setBytes address byte count).byte (address k) = (byte k).toNat :=
  view.byte_setBytes_of_last address byte count (fun j hkj hj => (hdistinct k j hkj hj).symm) hk haddress

/-- The first byte can be set before the others. -/
theorem setBytes_succ : view.setBytes address byte (count + 1) =
    (view.setByte (address 0) (byte 0)).setBytes (fun k => address (k + 1)) (fun k => byte (k + 1)) count := by
  induction count with
  | zero => rfl
  | succ count ih => rw [setBytes, ih, setBytes]

theorem raiseIf_setBytes (p : Prop) [Decidable p] (cause : Cause) :
    (view.raiseIf p cause).setBytes address byte count = (view.setBytes address byte count).raiseIf p cause := by
  induction count with
  | zero => rfl
  | succ count ih => rw [setBytes, ih, raiseIf_setByte, setBytes]

end SetBytes

end View

variable {x : Xlen}

def view (hart : Hart x) : View x.bits :=
  ⟨hart.pc, hart.register, hart.ram, hart.extensions, hart.trap⟩

/-- Nothing of a hart is hidden. -/
theorem view_injective {a b : Hart x} (hview : a.view = b.view) : a = b := by
  obtain ⟨slots, ram, extensions, trap⟩ := a
  obtain ⟨slots', ram', extensions', trap'⟩ := b
  simp only [view, View.mk.injEq] at hview
  obtain ⟨hpc, hregisters, rfl, rfl, rfl⟩ := hview
  suffices hslots : slots = slots' by rw [hslots]
  refine Vector.ext fun i hi => ?_
  by_cases hzero : i = 0
  · subst hzero
    exact hpc
  · have hregister := congrFun hregisters ⟨i, hi⟩
    have hindex : (⟨i, hi⟩ : Fin 32) ≠ 0 := fun h => hzero (congrArg Fin.val h)
    rwa [register, register, if_neg hindex, if_neg hindex] at hregister

@[simp] theorem view_putPc (hart : Hart x) (n : Nat) :
    (hart.putPc n).view = { hart.view with pc := BitVec.ofNat x.bits n } := by
  have hregisters : (hart.putPc n).register = hart.register := by
    funext index
    by_cases hzero : index = 0
    · rw [register, register, if_pos hzero, if_pos hzero]
    · have hslot : (0 : Nat) ≠ index.val := fun h => hzero (Fin.ext h.symm)
      rw [register, register, if_neg hzero, if_neg hzero]
      exact Vector.getElem_set_ne (by omega) _ hslot
  have hpc : (hart.putPc n).pc = BitVec.ofNat x.bits n := Vector.getElem_set_self _
  rw [view, hregisters, hpc]
  rfl

@[simp] theorem view_putRegister (hart : Hart x) (index : Fin 32) (n : Nat) :
    (hart.putRegister index n).view = hart.view.setRegister index (BitVec.ofNat x.bits n) := by
  have hpc : (hart.putRegister index n).pc = hart.pc := by
    unfold putRegister
    split
    · rfl
    · next hzero => exact Vector.getElem_set_ne (by omega) _ fun h => hzero (Fin.ext h)
  have hregisters : (hart.putRegister index n).register =
      fun i => if i = index ∧ i.val ≠ 0 then BitVec.ofNat x.bits n else hart.register i := by
    funext i
    by_cases hi : i = 0
    · subst hi
      have hzero : ¬((0 : Fin 32) = index ∧ (0 : Fin 32).val ≠ 0) := fun h => h.2 rfl
      rw [if_neg hzero]
      rfl
    · have hslot : i.val ≠ 0 := fun h => hi (Fin.ext h)
      rw [register, register, if_neg hi, if_neg hi, putRegister]
      by_cases hindex : i = index
      · subst hindex
        rw [if_neg hi, if_pos ⟨rfl, hslot⟩]
        exact Vector.getElem_set_self (by omega)
      · have hother : ¬(i = index ∧ i.val ≠ 0) := fun h => hindex h.1
        rw [if_neg hother]
        split
        · rfl
        · exact Vector.getElem_set_ne (by omega) _ fun h => hindex (Fin.ext h.symm)
  have hrest : (hart.putRegister index n).ram = hart.ram ∧
      (hart.putRegister index n).extensions = hart.extensions ∧ (hart.putRegister index n).trap = hart.trap := by
    unfold putRegister
    split
    · exact ⟨rfl, rfl, rfl⟩
    · exact ⟨rfl, rfl, rfl⟩
  rw [view, hpc, hregisters, hrest.1, hrest.2.1, hrest.2.2]
  rfl

@[simp] theorem view_raise (hart : Hart x) (cause : Cause) :
    (hart.raise cause).view = hart.view.raise cause := rfl

/-- What is read from the memory, and the trap that reading beyond it leaves. -/
theorem load_eq (hart : Hart x) (address : Nat) :
    (hart.load address).1.toNat = hart.view.byte address ∧
      (hart.load address).2.view = hart.view.raiseIf (hart.view.ram.size ≤ address) .loadFault := by
  by_cases haddress : address < hart.view.ram.size
  · have hload : hart.load address = (hart.view.ram[address], hart) := dif_pos haddress
    rw [hload, View.byte, dif_pos haddress, View.raiseIf_of_neg _ _ (Nat.not_le.mpr haddress)]
    exact ⟨rfl, rfl⟩
  · have hload : hart.load address = (0, hart.raise .loadFault) := dif_neg haddress
    rw [hload, View.byte, dif_neg haddress, View.raiseIf_of_pos _ _ (Nat.not_lt.mp haddress)]
    exact ⟨rfl, rfl⟩

theorem view_store (hart : Hart x) (address : Nat) (byte : UInt8) :
    (hart.store address byte).view =
      (hart.view.setByte address byte).raiseIf (hart.view.ram.size ≤ address) .storeFault := by
  by_cases haddress : address < hart.view.ram.size
  · have hstore : hart.store address byte = { hart with ram := hart.view.ram.set address byte haddress } :=
      dif_pos haddress
    rw [hstore, View.raiseIf_of_neg _ _ (Nat.not_le.mpr haddress), View.setByte, dif_pos haddress]
    rfl
  · have hstore : hart.store address byte = hart.raise .storeFault := dif_neg haddress
    rw [hstore, View.raiseIf_of_pos _ _ (Nat.not_lt.mp haddress), View.setByte, dif_neg haddress]
    rfl

/-- A register index of five bits is the index of a register. -/
theorem registerIndex_eq {id : Bits} (hid : id.width = 5) :
    ∃ hlt : id.toNat < 32, registerIndex id.toNat = .ok ⟨id.toNat, hlt⟩ := by
  obtain ⟨width, value, hwidth⟩ := id
  obtain rfl : width = 5 := hid
  exact ⟨value.isLt, dif_pos value.isLt⟩

theorem getRegister_eq {id : Bits} (hid : id.width = 5) (hart : Hart x) :
    ∃ hlt : id.toNat < 32, (Machine.getRegister id : Action (Hart x) Bits) hart =
      (.ok ⟨x.bits, hart.register ⟨id.toNat, hlt⟩, x.bits_le⟩, hart) := by
  obtain ⟨hlt, hindex⟩ := registerIndex_eq hid
  refine ⟨hlt, ?_⟩
  simp only [Machine.getRegister, hindex]
  rfl

theorem setRegister_eq {id : Bits} (hid : id.width = 5) (value : Bits) (hart : Hart x) :
    ∃ hlt : id.toNat < 32, (Machine.setRegister id value : Action (Hart x) Unit) hart =
      (.ok (), hart.putRegister ⟨id.toNat, hlt⟩ value.toNat) := by
  obtain ⟨hlt, hindex⟩ := registerIndex_eq hid
  refine ⟨hlt, ?_⟩
  simp only [Machine.setRegister, hindex]
  rfl

end RiscvSemantics.Hart
