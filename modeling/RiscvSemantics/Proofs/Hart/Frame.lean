import RiscvSemantics.Proofs.Dialogue.Confined
import RiscvSemantics.Proofs.Hart.Access

namespace RiscvSemantics

variable {δ α : Type} {x : Xlen} {q : Query} {c : Change Cause}

/-- Whether a read and a change, of such kinds, may come out differently the other way round.
    Since reading beyond the memory is a fault, and the first cause stays, such a read has to
    keep its place among whatever may raise one. -/
def Effect.disturbs : Effect → Read → Bool
  | .pc, .pc | .register, .register | .cell, .cell | .trap, .cell => true
  | _, _ => false

/-- The effect of writing at a location. -/
def Location.effect : Location → Effect
  | .pc => .pc
  | .register _ => .register
  | .byte _ => .cell

theorem Change.effect_of_location? {location : Location} (hlocation : c.location? = some location) :
    c.effect = location.effect := by
  cases c <;> cases hlocation <;> rfl

namespace Hart

theorem pc_make (hother : c.effect ≠ .pc) (hart : Hart x) :
    ((c.make : Action (Hart x) Unit) hart).2.pc = hart.pc := by
  have hlocation : c.location? ≠ some .pc := fun h => hother (c.effect_of_location? h)
  cases hmake : (c.make : Action (Hart x) Unit) hart with
  | mk answer after =>
    cases answer with
    | ok u => exact BitVec.eq_of_toNat_eq ((changes_of_make hmake).kept .pc hlocation)
    | error fault => rw [(make_fault hmake).1]

theorem register_make (hother : c.effect ≠ .register) (hart : Hart x) :
    ((c.make : Action (Hart x) Unit) hart).2.register = hart.register := by
  funext index
  have hlocation : c.location? ≠ some (.register index.val) := fun h => hother (c.effect_of_location? h)
  cases hmake : (c.make : Action (Hart x) Unit) hart with
  | mk answer after =>
    cases answer with
    | error fault => rw [(make_fault hmake).1]
    | ok u =>
      have hkept := (changes_of_make hmake).kept _ hlocation
      simp only [View.value, index.isLt, dite_true] at hkept
      exact BitVec.eq_of_toNat_eq hkept

/-- Reading the memory neither looks at the slots nor changes them. -/
theorem load_slots (hart : Hart x) (slots : Vector (BitVec x.bits) 32) (address : Nat) :
    ({ hart with slots } : Hart x).load address =
      ((hart.load address).1, { (hart.load address).2 with slots }) := by
  by_cases hinside : address < hart.ram.size
  · have hload : hart.load address = (hart.ram[address], hart) := dif_pos hinside
    rw [hload]
    exact dif_pos hinside
  · have hload : hart.load address = (0, hart.raise .loadFault) := dif_neg hinside
    rw [hload]
    exact dif_neg hinside

theorem slots_load (hart : Hart x) (address : Nat) : (hart.load address).2.slots = hart.slots := by
  unfold load
  split
  · rfl
  · rfl

theorem load_putPc (hart : Hart x) (n address : Nat) :
    (hart.putPc n).load address = ((hart.load address).1, (hart.load address).2.putPc n) := by
  rw [putPc, putPc, load_slots, slots_load]

theorem load_putRegister (hart : Hart x) (index : Fin 32) (n address : Nat) :
    (hart.putRegister index n).load address =
      ((hart.load address).1, (hart.load address).2.putRegister index n) := by
  unfold putRegister
  split
  · rfl
  · rw [load_slots, slots_load]

/-- Asking a hart leaves all of it but what is pending. -/
theorem exists_trap_ask (q : Query) (hart : Hart x) :
    ∃ trap, ((q.ask : Action (Hart x) Bits) hart).2 = { hart with trap } := by
  cases hask : (q.ask : Action (Hart x) Bits) hart with
  | mk answer after =>
    cases answer with
    | ok value => exact ⟨_, (answers_of_ask hask).after⟩
    | error fault => exact ⟨hart.trap, ask_fault hask⟩

/-- Whether a change is made or faults does not depend on the hart. -/
theorem make_answer (a b : Hart x) :
    ((c.make : Action (Hart x) Unit) a).1 = ((c.make : Action (Hart x) Unit) b).1 := by
  cases c with
  | pc value => rfl
  | memory address value => rfl
  | raise cause => rfl
  | register id value =>
    simp only [Change.make, Machine.setRegister]
    cases registerIndex id.toNat <;> rfl

/-- A read and a change that do not disturb each other can be done in either order. -/
theorem ask_make (hfree : c.effect.disturbs q.read = false) (hart : Hart x) :
    (q.ask : Action (Hart x) Bits) ((c.make : Action (Hart x) Unit) hart).2 =
      (((q.ask : Action (Hart x) Bits) hart).1,
        ((c.make : Action (Hart x) Unit) ((q.ask : Action (Hart x) Bits) hart).2).2) := by
  let answer (value : BitVec x.bits) : Except Fault Bits × Hart x :=
    (.ok ⟨x.bits, value, x.bits_le⟩, ((c.make : Action (Hart x) Unit) hart).2)
  cases q with
  | pc =>
    have hother : c.effect ≠ .pc := fun h => by
      rw [h] at hfree
      cases hfree
    exact congrArg answer (pc_make hother hart)
  | register id =>
    have hother : c.effect ≠ .register := fun h => by
      rw [h] at hfree
      cases hfree
    simp only [Query.ask, Machine.getRegister]
    cases registerIndex id.toNat with
    | error fault => rfl
    | ok index =>
      exact congrArg answer (congrFun (register_make hother hart) index)
  | memory address =>
    let loading (loaded : UInt8 × Hart x) : Except Fault Bits × Hart x :=
      (.ok (Bits.ofByte loaded.1.toBitVec), loaded.2)
    cases c with
    | memory location value => cases hfree
    | raise cause => cases hfree
    | pc value => exact congrArg loading (hart.load_putPc value.toNat address.toNat)
    | register id value =>
      simp only [Change.make, Machine.setRegister]
      cases registerIndex id.toNat with
      | error fault => rfl
      | ok index => exact congrArg loading (hart.load_putRegister index value.toNat address.toNat)

end Hart

namespace Dialogue

variable {reads : Read → Prop} {effects : Effect → Prop} {result : α → Prop} {d : Dialogue Cause δ α}

/-- A dialogue that makes no changes leaves all of a hart but what is pending. -/
theorem Confined.run_eq_of_reads (hd : d.Confined reads (fun _ => False) result) (hart : Hart x) :
    ∃ trap, (d.run hart).2 = { hart with trap } := by
  refine hd.run_related (R := fun a b : Hart x => ∃ trap, b = { a with trap }) ?_ ?_ ?_ ?_ hart
  · exact fun a => ⟨a.trap, rfl⟩
  · rintro a _ _ ⟨_, rfl⟩ ⟨trap, rfl⟩
    exact ⟨trap, rfl⟩
  · exact fun q a _ => Hart.exists_trap_ask q a
  · exact fun _ _ hnone => hnone.elim

/-- A dialogue that does not set the program counter keeps it. -/
theorem Confined.pc_run (hd : d.Confined reads effects result) (hpc : ¬effects .pc) (hart : Hart x) :
    (d.run hart).2.pc = hart.pc := by
  refine hd.run_related (R := fun a b : Hart x => b.pc = a.pc) ?_ ?_ ?_ ?_ hart
  · exact fun _ => rfl
  · exact fun _ _ _ hab hbc => hbc.trans hab
  · intro q a _
    obtain ⟨trap, hafter⟩ := Hart.exists_trap_ask q a
    rw [hafter]
    rfl
  · intro c a heffect
    exact Hart.pc_make (fun h => hpc (h ▸ heffect)) a

/-- A dialogue of reads that a change does not disturb goes the same before and after it. -/
theorem Confined.run_after_make {c : Change Cause}
    (hd : d.Confined (fun kind => c.effect.disturbs kind = false) (fun _ => False) result) (hart : Hart x) :
    d.run ((c.make : Action (Hart x) Unit) hart).2 =
      ((d.run hart).1, ((c.make : Action (Hart x) Unit) (d.run hart).2).2) := by
  induction d generalizing hart with
  | done answer => rfl
  | look next ih => exact hd.elim
  | make c' next ih => exact hd.1.elim
  | ask q next ih =>
    have hcommute := Hart.ask_make hd.1 hart
    cases hask : (q.ask : Action (Hart x) Bits) hart with
    | mk answer after =>
      rw [hask] at hcommute
      cases answer with
      | ok value =>
        rw [run_ask hcommute, run_ask hask]
        exact ih value (hd.2 value) after
      | error fault => rw [run_ask_fault hcommute, run_ask_fault hask]

/-- So it goes with the change that a statement comes to, if it comes to one. -/
theorem Confined.run_after_conclude {change? : Option (Change Cause)} {d : Dialogue Cause Violation α}
    (hd : ∀ c ∈ change?, d.Confined (fun kind => c.effect.disturbs kind = false) (fun _ => False) result)
    (hart : Hart x) :
    d.run ((conclude change?).run hart).2 = ((d.run hart).1, ((conclude change?).run (d.run hart).2).2) := by
  cases change? with
  | none => rfl
  | some c =>
    have hconclude (hart : Hart x) :
        ((conclude (some c)).run hart).2 = ((c.make : Action (Hart x) Unit) hart).2 := by
      rw [conclude, run_change, Interpretation.act_apply]
    rw [hconclude, hconclude]
    exact (hd c rfl).run_after_make hart

end Dialogue

namespace Statement

open Dialogue

variable {statements : List (Statement Cause)} {cause : Cause}

/-- Statements none of which sets the program counter keep it. -/
theorem pc_executeAll (instruction : Instruction) (hkeep : ∀ statement ∈ statements, statement.effect ≠ .pc)
    (hart : Hart x) : (executeAll instruction statements hart).2.pc = hart.pc := by
  have hconfined : (dialogueAll instruction x.bits x.bits_le statements).Confined (fun _ => True)
      (fun effect => effect ≠ .pc) fun _ => True := dialogueAll_confined _ _ _ _ hkeep
  rw [executeAll_eq_run]
  exact hconfined.pc_run (fun h => h rfl) hart

/-- Only a statement that raises a cause calls for it to be raised. -/
theorem raise_notMem_calls (instruction : Instruction)
    (hquiet : ∀ statement ∈ statements, statement.effect ≠ .trap) (hart : Hart x) :
    Access.raise cause ∉ (dialogueAll instruction x.bits x.bits_le statements).calls hart := by
  have hconfined : (dialogueAll instruction x.bits x.bits_le statements).Confined (fun _ => True)
      (fun effect => effect ≠ .trap) fun _ => True := dialogueAll_confined _ _ _ _ hquiet
  exact hconfined.raise_notMem_calls (fun h => h rfl) cause

/-- Where only the first statement can raise a cause, none is raised unless its condition
    holds. -/
theorem condition_of_raise_mem_calls {instruction : Instruction} {condition : Expr} {cause' : Cause}
    {hart hart₁ : Hart x} {c : Bits} (hcondition : condition.eval instruction hart = (.ok c, hart₁))
    (hquiet : ∀ statement ∈ statements, statement.effect ≠ .trap)
    (hmem : Access.raise cause ∈
      (dialogueAll instruction x.bits x.bits_le (.raiseIf condition cause' :: statements)).calls hart) :
    c.toNat = 1 := by
  have hdialogue : (condition.dialogue instruction x.bits x.bits_le).run hart = (.ok c, hart₁) := by
    rw [← hcondition, Expr.eval_eq_run]
    rfl
  have hprepares : ((raiseIf condition cause').preparation instruction x.bits x.bits_le).Confined
      (fun _ => True) (fun _ => False) _ := preparation_confined _ _ _ _ fun _ _ => trivial
  obtain hfirst | ⟨_, mid, _, hlater⟩ := mem_calls_bind _ _ hmem
  · obtain hprepare | ⟨change?, mid, hrun, hconclude⟩ := mem_calls_bind _ _ hfirst
    · exact absurd hprepare (hprepares.raise_notMem_calls id cause)
    · rw [preparation, run_bind, Interpretation.bind_of_ok hdialogue] at hrun
      refine Decidable.byContradiction fun hnot => ?_
      rw [if_neg hnot] at hrun
      cases hrun
      cases hconclude
  · exact absurd hlater (raise_notMem_calls instruction hquiet mid)

end Statement

end RiscvSemantics
