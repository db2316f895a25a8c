import RiscvSemantics.Proofs.Widths.Service

namespace RiscvSemantics

/-- A place of a hart that holds a number of its own. -/
inductive Location where
  | pc
  | register (index : Nat)
  | byte (address : Nat)
deriving DecidableEq

variable {ε : Type} {x : Xlen}

def Query.location : Query → Location
  | .pc => .pc
  | .register id => .register id.toNat
  | .memory address => .byte address.toNat

/-- Where a change writes; a cause that is raised is written nowhere. -/
def Change.location? : Change ε → Option Location
  | .pc _ => some .pc
  | .register id _ => some (.register id.toNat)
  | .memory address _ => some (.byte address.toNat)
  | .raise _ => none

/-- The cause that an access makes pending on a hart with so many bytes of memory, if none
    is pending. -/
def Access.cause? (size : Nat) : Access Cause → Option Cause
  | .getMemory address _ => if size ≤ address.toNat then some .loadFault else none
  | .setMemory address _ => if size ≤ address.toNat then some .storeFault else none
  | .raise cause => some cause
  | .getPc _ | .setPc _ | .getRegister .. | .setRegister .. => none

namespace Hart

/-- The number at a location. There is none beyond the registers or beyond the memory,
    where it counts as zero, and register 0 holds zero too. -/
def View.value {width : Nat} (view : View width) : Location → Nat
  | .pc => view.pc.toNat
  | .register index => if h : index < 32 then (view.registers ⟨index, h⟩).toNat else 0
  | .byte address => view.byte address

/-- What a change leaves at its location in a hart with registers of that width and so many
    bytes of memory. -/
def deposit (bits size : Nat) : Change ε → Nat
  | .pc value => (BitVec.ofNat bits value.toNat).toNat
  | .register id value => if id.toNat = 0 then 0 else (BitVec.ofNat bits value.toNat).toNat
  | .memory address value => if address.toNat < size then value.toNat % 256 else 0
  | .raise _ => 0

/-- How a hart answers: with the number at the location, and all that becomes of the hart is
    that it may trap. -/
structure Answers (q : Query) (before : Hart x) (value : Bits) (after : Hart x) : Prop where
  number : value.toNat = before.view.value q.location
  width : value.width = Machine.Widths.of ⟨x.bits, x.bits, Violation.cellBits⟩ q.read
  after : after = { before with trap := before.trap.or ((q.access value).cause? before.ram.size) }

/-- How a hart is changed: at one location, which then holds what does not depend on what it
    held before. -/
structure Changes (c : Change Cause) (before after : Hart x) : Prop where
  written : ∀ location, c.location? = some location →
    after.view.value location = deposit x.bits before.ram.size c
  kept : ∀ location, c.location? ≠ some location → after.view.value location = before.view.value location
  size : after.ram.size = before.ram.size
  extensions : after.extensions = before.extensions
  trap : after.trap = before.trap.or (c.access.cause? before.ram.size)

namespace View

variable {width : Nat} (view : View width)

theorem value_setPc_of_ne {location : Location} (value : BitVec width) (hne : location ≠ .pc) :
    { view with pc := value }.value location = view.value location := by
  cases location with
  | pc => exact absurd rfl hne
  | register index => rfl
  | byte address => rfl

theorem value_setRegister_of_ne {location : Location} (index : Fin 32) (value : BitVec width)
    (hne : location ≠ .register index.val) :
    (view.setRegister index value).value location = view.value location := by
  cases location with
  | pc => rfl
  | byte address => rfl
  | register other =>
    simp only [View.value]
    split
    · next hlt =>
      have hother : ¬((⟨other, hlt⟩ : Fin 32) = index ∧ other ≠ 0) := by
        rintro ⟨rfl, _⟩
        exact hne rfl
      rw [registers_setRegister, if_neg hother]
    · rfl

theorem value_setByte_of_ne {location : Location} (address : Nat) (byte : UInt8)
    (hne : location ≠ .byte address) :
    (view.setByte address byte).value location = view.value location := by
  cases location with
  | pc => rfl
  | register index => rfl
  | byte other =>
    have hother : other ≠ address := fun h => hne (congrArg Location.byte h)
    exact byte_setByte_ne view address byte hother

theorem byte_of_le {address : Nat} (hbeyond : view.ram.size ≤ address) : view.byte address = 0 :=
  dif_neg (Nat.not_lt.mpr hbeyond)

theorem value_raiseIf (p : Prop) [Decidable p] (cause : Cause) (location : Location) :
    (view.raiseIf p cause).value location = view.value location := by
  cases location <;> rfl

end View

theorem registerIndex_of_ok {n : Nat} {index : Fin 32} (hindex : registerIndex n = .ok index) :
    index.val = n := by
  unfold registerIndex at hindex
  split at hindex
  · obtain rfl := Except.ok.inj hindex
    rfl
  · cases hindex

theorem answers_of_ask {q : Query} {before after : Hart x} {value : Bits}
    (hask : (q.ask : Action (Hart x) Bits) before = (.ok value, after)) : Answers q before value after := by
  cases q with
  | pc =>
    have hget : (Except.ok ⟨x.bits, before.pc, x.bits_le⟩, before) =
        (Except.ok (ε := Fault) value, after) := hask
    cases hget
    exact ⟨rfl, rfl, by rw [Query.access, Access.cause?, Option.or_none]⟩
  | register id =>
    cases hindex : registerIndex id.toNat with
    | error fault =>
      simp only [Query.ask, Machine.getRegister, hindex] at hask
      cases congrArg Prod.fst hask
    | ok index =>
      have hget : (Except.ok ⟨x.bits, before.register index, x.bits_le⟩, before) =
          (Except.ok (ε := Fault) value, after) := by
        rw [← hask]
        simp only [Query.ask, Machine.getRegister, hindex]
        rfl
      cases hget
      refine ⟨?_, rfl, by rw [Query.access, Access.cause?, Option.or_none]⟩
      rw [Query.location, View.value, ← registerIndex_of_ok hindex, dif_pos index.isLt]
      rfl
  | memory address =>
    obtain ⟨hnumber, -⟩ := before.load_eq address.toNat
    have hget : (Except.ok (Bits.ofByte (before.load address.toNat).1.toBitVec),
        (before.load address.toNat).2) = (Except.ok (ε := Fault) value, after) := hask
    cases hget
    refine ⟨hnumber, rfl, ?_⟩
    rw [load]
    split
    · next hinside =>
      rw [Query.access, Access.cause?, if_neg (Nat.not_le.mpr hinside), Option.or_none]
    · next hbeyond =>
      rw [Query.access, Access.cause?, if_pos (Nat.not_lt.mp hbeyond), raise]

theorem changes_putPc (hart : Hart x) (value : Bits) : Changes (.pc value) hart (hart.putPc value.toNat) where
  written location hlocation := by
    obtain rfl := Option.some.inj hlocation
    rw [view_putPc]
    rfl
  kept location hne := by
    rw [view_putPc]
    exact View.value_setPc_of_ne _ _ fun h => hne (congrArg some h.symm)
  size := rfl
  extensions := rfl
  trap := Option.or_none.symm

theorem changes_putRegister (hart : Hart x) {id : Bits} {index : Fin 32} (hindex : index.val = id.toNat)
    (value : Bits) : Changes (.register id value) hart (hart.putRegister index value.toNat) where
  written location hlocation := by
    obtain rfl := Option.some.inj hlocation
    rw [view_putRegister, View.value, deposit, ← hindex, dif_pos index.isLt, View.registers_setRegister]
    by_cases hzero : index.val = 0
    · obtain rfl : index = 0 := Fin.ext hzero
      rfl
    · rw [if_neg hzero, if_pos ⟨rfl, hzero⟩]
  kept location hne := by
    rw [view_putRegister]
    exact View.value_setRegister_of_ne _ _ _ fun h => hne (by rw [h, Change.location?, hindex])
  size := congrArg (·.ram.size) (hart.view_putRegister index value.toNat)
  extensions := congrArg View.extensions (hart.view_putRegister index value.toNat)
  trap := (congrArg View.trap (hart.view_putRegister index value.toNat)).trans Option.or_none.symm

theorem changes_store (hart : Hart x) (address value : Bits) :
    Changes (.memory address value) hart (hart.store address.toNat (UInt8.ofNat value.toNat)) where
  written location hlocation := by
    obtain rfl := Option.some.inj hlocation
    rw [view_store, View.value_raiseIf, View.value, deposit]
    split
    · next hinside => exact View.byte_setByte_self _ _ _ hinside
    · next hbeyond =>
      rw [View.byte_of_le]
      rw [View.size_setByte]
      exact Nat.not_lt.mp hbeyond
  kept location hne := by
    rw [view_store, View.value_raiseIf]
    exact View.value_setByte_of_ne _ _ _ fun h => hne (congrArg some h.symm)
  size := (congrArg (·.ram.size) (hart.view_store ..)).trans (View.size_setByte ..)
  extensions := congrArg View.extensions (hart.view_store ..)
  trap := by
    refine (congrArg View.trap (hart.view_store ..)).trans ?_
    rw [Change.access, Access.cause?, View.raiseIf]
    by_cases hbeyond : hart.view.ram.size ≤ address.toNat
    · exact (if_pos hbeyond).trans (congrArg hart.trap.or (if_pos hbeyond).symm)
    · refine (if_neg hbeyond).trans (Eq.trans ?_ (congrArg hart.trap.or (if_neg hbeyond).symm))
      exact Option.or_none.symm

theorem changes_raise (hart : Hart x) (cause : Cause) : Changes (.raise cause) hart (hart.raise cause) where
  written _ hlocation := by cases hlocation
  kept location _ := by cases location <;> rfl
  size := rfl
  extensions := rfl
  trap := rfl

theorem changes_of_make {c : Change Cause} {before after : Hart x}
    (hmake : (c.make : Action (Hart x) Unit) before = (.ok (), after)) : Changes c before after := by
  cases c with
  | pc value =>
    obtain rfl : before.putPc value.toNat = after := congrArg Prod.snd hmake
    exact before.changes_putPc value
  | register id value =>
    cases hindex : registerIndex id.toNat with
    | error fault =>
      simp only [Change.make, Machine.setRegister, hindex] at hmake
      cases congrArg Prod.fst hmake
    | ok index =>
      simp only [Change.make, Machine.setRegister, hindex] at hmake
      obtain rfl : before.putRegister index value.toNat = after := congrArg Prod.snd hmake
      exact before.changes_putRegister (registerIndex_of_ok hindex) value
  | memory address value =>
    obtain rfl : before.store address.toNat (UInt8.ofNat value.toNat) = after := congrArg Prod.snd hmake
    exact before.changes_store address value
  | raise cause =>
    obtain rfl : before.raise cause = after := congrArg Prod.snd hmake
    exact before.changes_raise cause

/-- A hart faults for a register that it does not have, and stays as it is. -/
theorem ask_fault {q : Query} {before after : Hart x} {fault : Fault}
    (hask : (q.ask : Action (Hart x) Bits) before = (.error fault, after)) : after = before := by
  cases q with
  | pc => cases congrArg Prod.fst hask
  | memory address => cases congrArg Prod.fst hask
  | register id =>
    cases hindex : registerIndex id.toNat with
    | error fault =>
      simp only [Query.ask, Machine.getRegister, hindex] at hask
      exact (congrArg Prod.snd hask).symm
    | ok index =>
      simp only [Query.ask, Machine.getRegister, hindex] at hask
      cases congrArg Prod.fst hask

theorem make_fault {c : Change Cause} {before after : Hart x} {fault : Fault}
    (hmake : (c.make : Action (Hart x) Unit) before = (.error fault, after)) :
    after = before ∧ ∀ size, c.access.cause? size = none := by
  cases c with
  | pc value => cases congrArg Prod.fst hmake
  | memory address value => cases congrArg Prod.fst hmake
  | raise cause => cases congrArg Prod.fst hmake
  | register id value =>
    cases hindex : registerIndex id.toNat with
    | error fault =>
      simp only [Change.make, Machine.setRegister, hindex] at hmake
      exact ⟨(congrArg Prod.snd hmake).symm, fun _ => rfl⟩
    | ok index =>
      simp only [Change.make, Machine.setRegister, hindex] at hmake
      cases congrArg Prod.fst hmake

end Hart

end RiscvSemantics
