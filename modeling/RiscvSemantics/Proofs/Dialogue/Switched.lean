import RiscvSemantics.Proofs.Hart.Frame

namespace RiscvSemantics

variable {σ ε ω δ α : Type}

/-- A machine can be switched to other extensions by `f`, and no access tells whether it has been:
    it is served as before, and switching the machine afterwards comes to the same. No access
    changes the extensions itself. -/
structure Machine.Switches [Machine σ ε] (f : σ → σ) (extensions : Extensions) : Prop where
  extensions : ∀ s, Machine.extensions (f s) = extensions
  pending : ∀ s, Machine.pending (f s) = Machine.pending s
  ask : ∀ (q : Query) s,
    (q.ask : Action σ Bits) (f s) = (((q.ask : Action σ Bits) s).1, f ((q.ask : Action σ Bits) s).2)
  make : ∀ (c : Change ε) s,
    (c.make : Action σ Unit) (f s) = (((c.make : Action σ Unit) s).1, f ((c.make : Action σ Unit) s).2)
  kept_ask : ∀ (q : Query) s, Machine.extensions ((q.ask : Action σ Bits) s).2 = Machine.extensions s
  kept_make : ∀ (c : Change ε) s, Machine.extensions ((c.make : Action σ Unit) s).2 = Machine.extensions s

namespace Hart

variable {x : Xlen}

theorem load_setExtensions (hart : Hart x) (extensions : Extensions) (address : Nat) :
    (hart.setExtensions extensions).load address =
      ((hart.load address).1, (hart.load address).2.setExtensions extensions) := by
  by_cases hinside : address < hart.ram.size
  · have hload : hart.load address = (hart.ram[address], hart) := dif_pos hinside
    rw [hload]
    exact dif_pos hinside
  · have hload : hart.load address = (0, hart.raise .loadFault) := dif_neg hinside
    rw [hload]
    exact dif_neg hinside

theorem store_setExtensions (hart : Hart x) (extensions : Extensions) (address : Nat) (byte : UInt8) :
    (hart.setExtensions extensions).store address byte = (hart.store address byte).setExtensions extensions := by
  by_cases hinside : address < hart.ram.size
  · have hstore : hart.store address byte = { hart with ram := hart.ram.set address byte hinside } :=
      dif_pos hinside
    rw [hstore]
    exact dif_pos hinside
  · have hstore : hart.store address byte = hart.raise .storeFault := dif_neg hinside
    rw [hstore]
    exact dif_neg hinside

theorem putRegister_setExtensions (hart : Hart x) (extensions : Extensions) (index : Fin 32) (n : Nat) :
    (hart.setExtensions extensions).putRegister index n =
      (hart.putRegister index n).setExtensions extensions := by
  unfold putRegister
  split
  · rfl
  · rfl

theorem extensions_ask (q : Query) (hart : Hart x) :
    ((q.ask : Action (Hart x) Bits) hart).2.extensions = hart.extensions := by
  obtain ⟨trap, hafter⟩ := exists_trap_ask q hart
  rw [hafter]

theorem extensions_make (c : Change Cause) (hart : Hart x) :
    ((c.make : Action (Hart x) Unit) hart).2.extensions = hart.extensions := by
  cases hmake : (c.make : Action (Hart x) Unit) hart with
  | mk answer after =>
    cases answer with
    | ok u => exact (changes_of_make hmake).extensions
    | error fault => rw [(make_fault hmake).1]

/-- On a hart only the decoder looks at the extensions. -/
theorem switches (x : Xlen) (extensions : Extensions) :
    Machine.Switches (fun hart : Hart x => hart.setExtensions extensions) extensions where
  extensions _ := rfl
  pending _ := rfl
  ask q hart := by
    cases q with
    | pc => rfl
    | register id =>
      simp only [Query.ask, Machine.getRegister]
      cases registerIndex id.toNat <;> rfl
    | memory address =>
      let loading (loaded : UInt8 × Hart x) : Except Fault Bits × Hart x :=
        (.ok (Bits.ofByte loaded.1.toBitVec), loaded.2)
      exact congrArg loading (hart.load_setExtensions extensions address.toNat)
  make c hart := by
    let made (after : Hart x) : Except Fault Unit × Hart x := (.ok (), after)
    cases c with
    | pc value => rfl
    | register id value =>
      simp only [Change.make, Machine.setRegister]
      cases registerIndex id.toNat with
      | error fault => rfl
      | ok index => exact congrArg made (hart.putRegister_setExtensions extensions index value.toNat)
    | memory address value =>
      exact congrArg made (hart.store_setExtensions extensions address.toNat (UInt8.ofNat value.toNat))
    | raise cause => rfl
  kept_ask := extensions_ask
  kept_make := extensions_make

end Hart

/-- A machine with a record is switched by switching the machine. -/
def Recorded.switch (f : σ → σ) (recorded : Recorded σ ε) : Recorded σ ε :=
  { recorded with machine := f recorded.machine }

section Machine

variable [Machine σ ε] {f : σ → σ} {large : Extensions}

/-- A record tells no more about the extensions than the machine does. -/
theorem Recorded.switches (hf : Machine.Switches f large) :
    Machine.Switches (Recorded.switch f : Recorded σ ε → Recorded σ ε) large where
  extensions recorded := hf.extensions recorded.machine
  pending recorded := hf.pending recorded.machine
  ask q recorded := by
    have hswitched := hf.ask q recorded.machine
    cases hask : (q.ask : Action σ Bits) recorded.machine with
    | mk answer s' =>
      rw [hask] at hswitched
      cases answer with
      | ok value => rw [switch, ask_eq hswitched, ask_eq hask, switch]
      | error fault => rw [switch, ask_fault hswitched, ask_fault hask, switch]
  make c recorded := by
    have hswitched := hf.make c recorded.machine
    cases hmake : (c.make : Action σ Unit) recorded.machine with
    | mk answer s' =>
      rw [hmake] at hswitched
      rw [switch, make_eq hswitched, make_eq hmake, switch]
  kept_ask q recorded := by
    have hkept := hf.kept_ask q recorded.machine
    cases hask : (q.ask : Action σ Bits) recorded.machine with
    | mk answer s' =>
      rw [hask] at hkept
      cases answer with
      | ok value =>
        rw [ask_eq hask]
        exact hkept
      | error fault =>
        rw [ask_fault hask]
        exact hkept
  kept_make c recorded := by
    have hkept := hf.kept_make c recorded.machine
    cases hmake : (c.make : Action σ Unit) recorded.machine with
    | mk answer s' =>
      rw [hmake] at hkept
      rw [make_eq hmake]
      exact hkept

/-- A formula looks at neither the extensions nor the pending cause. -/
theorem Formula.dialogue_confined (formula : Formula ε) (instruction : Instruction) (xlen : Nat)
    (hxlen : xlen ≤ 64) :
    (Statement.dialogueAll instruction xlen hxlen formula.statements).Confined (fun _ => True)
      (fun _ => True) fun _ => True :=
  Statement.dialogueAll_confined instruction xlen hxlen formula.statements fun _ _ => trivial

namespace Machine.Switches

open Dialogue Interpretation

variable {reads : Read → Prop} {effects : Effect → Prop} {result : α → Prop} {s : σ}

/-- A dialogue that does not look at the extensions goes with a switched machine as it does
    without. -/
theorem run_eq (hf : Machine.Switches f large) {d : Dialogue ε δ α} (hd : d.Confined reads effects result)
    (s : σ) : d.run (f s) = ((d.run s).1, f (d.run s).2) := by
  induction d generalizing s with
  | done answer => rfl
  | look next ih => exact hd.elim
  | ask q next ih =>
    have hswitched := hf.ask q s
    cases hask : (q.ask : Action σ Bits) s with
    | mk answer s' =>
      rw [hask] at hswitched
      cases answer with
      | ok value =>
        rw [run_ask hswitched, run_ask hask]
        exact ih value (hd.2 value) s'
      | error fault => rw [run_ask_fault hswitched, run_ask_fault hask]
  | make c next ih =>
    have hswitched := hf.make c s
    cases hmake : (c.make : Action σ Unit) s with
    | mk answer s' =>
      rw [hmake] at hswitched
      cases answer with
      | ok u =>
        rw [run_make hswitched, run_make hmake]
        exact ih hd.2 s'
      | error fault => rw [run_make_fault hswitched, run_make_fault hmake]

theorem extensions_run (hf : Machine.Switches f large) {d : Dialogue ε δ α}
    (hd : d.Confined reads effects result) (s : σ) : Machine.extensions (d.run s).2 = Machine.extensions s := by
  refine hd.run_related (R := fun a b => Machine.extensions b = Machine.extensions a) ?_ ?_ ?_ ?_ s
  · exact fun _ => rfl
  · exact fun _ _ _ hab hbc => hbc.trans hab
  · exact fun q a _ => hf.kept_ask q a
  · exact fun c a _ => hf.kept_make c a

/-- A fetch is one such dialogue. -/
theorem fetch_of_ok (hf : Machine.Switches f large) {fetched : Bits × BitVec 32} {t : σ}
    (hfetch : (fetch : Action σ (Bits × BitVec 32)) s = (.ok fetched, t)) :
    (fetch : Action σ (Bits × BitVec 32)) (f s) = (.ok fetched, f t) ∧
      Machine.extensions t = Machine.extensions s := by
  have hconfined : (fetchDialogue : Dialogue ε RunError (Bits × BitVec 32)).Confined _ _ _ :=
    fetchDialogue_confined
  have hswitched := hf.run_eq hconfined s
  have hkept := hf.extensions_run hconfined s
  rw [← act_fetch_eq_run, act_of_ok hfetch] at hswitched hkept
  exact ⟨ok_of_act_ok hswitched, hkept⟩

/-- So is the execution of a formula. -/
theorem execute_eq (hf : Machine.Switches f large) (formula : Formula ε) (instruction : Instruction) (s : σ) :
    formula.execute instruction (f s) =
        ((formula.execute instruction s).1, f (formula.execute instruction s).2) ∧
      Machine.extensions (formula.execute instruction s).2 = Machine.extensions s := by
  have hconfined := formula.dialogue_confined instruction (Machine.xlen σ) Machine.xlen_le
  rw [Formula.execute, Statement.executeAll_eq_run]
  exact ⟨hf.run_eq hconfined s, hf.extensions_run hconfined s⟩

end Machine.Switches

end Machine

end RiscvSemantics
