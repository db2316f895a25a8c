import RiscvSemantics.Proofs.Record.Transparent
import RiscvSemantics.Proofs.Widths.Service

namespace RiscvSemantics

variable {σ ε ω δ γ α β : Type}

/-- What a change or a statement is about. -/
inductive Effect where
  | pc | register | cell | trap
deriving DecidableEq

def Change.effect : Change ε → Effect
  | .pc _ => .pc
  | .register .. => .register
  | .memory .. => .cell
  | .raise _ => .trap

def Statement.effect : Statement ε → Effect
  | .setPc _ => .pc
  | .setRegister .. => .register
  | .setMemory .. => .cell
  | .raiseIf .. => .trap

/-- The kinds of reads that an evaluation may make. -/
def Expr.kinds : Expr → List Read
  | .pc => [.pc]
  | .register id => kinds id ++ [.register]
  | .memory address => kinds address ++ [.cell]
  | .binary _ left right => kinds left ++ kinds right
  | .concat high low => kinds high ++ kinds low
  | .select condition yes no => kinds condition ++ (kinds yes ++ kinds no)
  | .unary _ inner | .zeroExtend _ inner | .signExtend _ inner | .extract _ _ inner => kinds inner
  | .literal _ | .operand .. | .xlen | .instructionBytes => []

def Statement.kinds : Statement ε → List Read
  | .setRegister id value => id.kinds ++ value.kinds
  | .setMemory address value => address.kinds ++ value.kinds
  | .setPc value => value.kinds
  | .raiseIf condition _ => condition.kinds

namespace Dialogue

variable {reads : Read → Prop} {effects : Effect → Prop} {result : α → Prop} {result' : β → Prop}

/-- The dialogue asks for nothing but such reads and makes nothing but such changes, whatever it
    is answered, and comes to such a result if it does not break off. It looks at neither the
    extensions nor the pending cause. -/
def Confined (reads : Read → Prop) (effects : Effect → Prop) (result : α → Prop) : Dialogue ε δ α → Prop
  | done answer => ∀ a, answer = .ok a → result a
  | look _ => False
  | ask q next => reads q.read ∧ ∀ value, (next value).Confined reads effects result
  | make c next => effects c.effect ∧ next.Confined reads effects result

theorem confined_pure {a : α} (ha : result a) : (pure a : Dialogue ε δ α).Confined reads effects result := by
  intro b hb
  obtain rfl := Except.ok.inj hb
  exact ha

theorem confined_checked {x : Except δ α} (hx : ∀ a, x = .ok a → result a) :
    (checked x : Dialogue ε δ α).Confined reads effects result := by
  cases x with
  | ok a => exact confined_pure (hx a rfl)
  | error e =>
    intro a ha
    cases ha

theorem confined_guarded {x : Except Fault α} (hx : ∀ a, x = .ok a → result a) :
    (guarded x : Dialogue ε δ α).Confined reads effects result := by
  cases x with
  | ok a => exact confined_pure (hx a rfl)
  | error fault =>
    intro a ha
    cases ha

theorem confined_query {q : Query} (hread : reads q.read) :
    (query q : Dialogue ε δ Bits).Confined reads effects fun _ => True :=
  ⟨hread, fun _ => confined_pure trivial⟩

theorem confined_change {c : Change ε} (heffect : effects c.effect) :
    (change c : Dialogue ε δ Unit).Confined reads effects fun _ => True :=
  ⟨heffect, confined_pure trivial⟩

theorem Confined.bind {d : Dialogue ε δ α} {f : α → Dialogue ε δ β} (hd : d.Confined reads effects result)
    (hf : ∀ a, result a → (f a).Confined reads effects result') :
    (d >>= f).Confined reads effects result' := by
  rw [bind_eq]
  induction d with
  | done answer =>
    cases answer with
    | ok a => exact hf a (hd a rfl)
    | error stop =>
      intro b hb
      cases hb
  | look next ih => exact hd.elim
  | ask q next ih => exact ⟨hd.1, fun value => ih value (hd.2 value)⟩
  | make c next ih => exact ⟨hd.1, ih hd.2⟩

/-- A check has no result that what follows it could use. -/
theorem confined_checked_bind {x : Except δ α} {f : α → Dialogue ε δ β}
    (hf : ∀ a, (f a).Confined reads effects result') : (checked x >>= f).Confined reads effects result' := by
  have hx : (checked x : Dialogue ε δ α).Confined reads effects fun _ => True :=
    confined_checked fun _ _ => trivial
  exact hx.bind fun a _ => hf a

end Dialogue

open Dialogue

/-- An evaluation makes no changes. -/
theorem Expr.dialogue_confined {reads : Read → Prop} {effects : Effect → Prop} (instruction : Instruction)
    (xlen : Nat) (hxlen : xlen ≤ 64) (e : Expr) (hkinds : ∀ kind ∈ e.kinds, reads kind) :
    (e.dialogue instruction xlen hxlen : Dialogue ε Violation Bits).Confined reads effects fun _ => True := by
  induction e with
  | literal value => exact confined_pure trivial
  | operand format field => exact confined_checked fun _ _ => trivial
  | pc => exact confined_query (q := .pc) (hkinds _ (List.mem_singleton_self _))
  | xlen => exact confined_pure trivial
  | instructionBytes => exact confined_pure trivial
  | register id ih =>
    obtain ⟨hid, hregister⟩ := List.forall_mem_append.mp hkinds
    refine (ih hid).bind fun index _ => confined_checked_bind fun _ => ?_
    exact confined_query (q := .register index) (hregister _ (List.mem_singleton_self _))
  | memory address ih =>
    obtain ⟨haddress, hcell⟩ := List.forall_mem_append.mp hkinds
    refine (ih haddress).bind fun location _ => confined_checked_bind fun _ => ?_
    have hquery : (query (.memory location) : Dialogue ε Violation Bits).Confined reads effects fun _ => True :=
      confined_query (hcell _ (List.mem_singleton_self _))
    exact hquery.bind fun cell _ => confined_checked_bind fun _ => confined_pure trivial
  | binary op left right ihl ihr =>
    obtain ⟨hleft, hright⟩ := List.forall_mem_append.mp hkinds
    refine (ihl hleft).bind fun a _ => (ihr hright).bind fun b _ => ?_
    cases op.needsEqualWidths with
    | false => exact confined_guarded fun _ _ => trivial
    | true => exact confined_checked_bind fun _ => confined_guarded fun _ _ => trivial
  | unary op inner ih => exact (ih hkinds).bind fun a _ => confined_pure trivial
  | zeroExtend width inner ih =>
    exact (ih hkinds).bind fun a _ => confined_checked_bind fun _ => confined_guarded fun _ _ => trivial
  | signExtend width inner ih =>
    exact (ih hkinds).bind fun a _ => confined_checked_bind fun _ => confined_guarded fun _ _ => trivial
  | extract start width source ih =>
    exact (ih hkinds).bind fun a _ => confined_checked_bind fun _ => confined_guarded fun _ _ => trivial
  | concat high low ihh ihl =>
    obtain ⟨hhigh, hlow⟩ := List.forall_mem_append.mp hkinds
    refine (ihh hhigh).bind fun a _ => (ihl hlow).bind fun b _ => ?_
    exact confined_checked_bind fun _ => confined_guarded fun _ _ => trivial
  | select condition yes no ihc ihy ihn =>
    obtain ⟨hcondition, hbranches⟩ := List.forall_mem_append.mp hkinds
    obtain ⟨hyes, hno⟩ := List.forall_mem_append.mp hbranches
    refine (ihc hcondition).bind fun c _ => (ihy hyes).bind fun a _ => (ihn hno).bind fun b _ => ?_
    exact confined_checked_bind fun _ => confined_pure trivial

/-- What a statement prepares is a change of its own kind, if any. -/
theorem Statement.preparation_confined {reads : Read → Prop} {effects : Effect → Prop}
    (instruction : Instruction) (xlen : Nat) (hxlen : xlen ≤ 64) (statement : Statement ε)
    (hkinds : ∀ kind ∈ statement.kinds, reads kind) :
    (statement.preparation instruction xlen hxlen).Confined reads effects
      fun change? => ∀ c ∈ change?, c.effect = statement.effect := by
  have hsome {c : Change ε} (hc : c.effect = statement.effect) :
      ∀ c' ∈ some c, c'.effect = statement.effect := by
    intro c' hc'
    obtain rfl := Option.some.inj hc'
    exact hc
  cases statement with
  | setRegister id value =>
    obtain ⟨hid, hvalue⟩ := List.forall_mem_append.mp hkinds
    refine (id.dialogue_confined _ _ _ hid).bind fun index _ => confined_checked_bind fun _ => ?_
    refine (value.dialogue_confined _ _ _ hvalue).bind fun v _ => confined_checked_bind fun _ => ?_
    exact confined_pure (hsome rfl)
  | setMemory address value =>
    obtain ⟨haddress, hvalue⟩ := List.forall_mem_append.mp hkinds
    refine (address.dialogue_confined _ _ _ haddress).bind fun location _ => confined_checked_bind fun _ => ?_
    refine (value.dialogue_confined _ _ _ hvalue).bind fun v _ => confined_checked_bind fun _ => ?_
    exact confined_pure (hsome rfl)
  | setPc value =>
    refine (value.dialogue_confined _ _ _ hkinds).bind fun v _ => confined_checked_bind fun _ => ?_
    exact confined_pure (hsome rfl)
  | raiseIf condition cause =>
    refine (condition.dialogue_confined _ _ _ hkinds).bind fun c _ => confined_pure ?_
    split
    · exact hsome rfl
    · intro c' hc'
      cases hc'

theorem Statement.dialogue_confined {effects : Effect → Prop} (instruction : Instruction) (xlen : Nat)
    (hxlen : xlen ≤ 64) (statement : Statement ε) (heffect : effects statement.effect) :
    (statement.dialogue instruction xlen hxlen).Confined (fun _ => True) effects fun _ => True := by
  refine (statement.preparation_confined _ _ _ fun _ _ => trivial).bind fun change? hchange => ?_
  cases change? with
  | none => exact confined_pure trivial
  | some c => exact confined_change ((hchange c rfl).symm ▸ heffect)

theorem Statement.dialogueAll_confined {effects : Effect → Prop} (instruction : Instruction) (xlen : Nat)
    (hxlen : xlen ≤ 64) (statements : List (Statement ε))
    (heffects : ∀ statement ∈ statements, effects statement.effect) :
    (dialogueAll instruction xlen hxlen statements).Confined (fun _ => True) effects fun _ => True := by
  induction statements with
  | nil => exact confined_pure trivial
  | cons statement rest ih =>
    obtain ⟨hfirst, hrest⟩ := List.forall_mem_cons.mp heffects
    exact (statement.dialogue_confined _ _ _ hfirst).bind fun _ _ => ih hrest

theorem fetchByteDialogue_confined (pc : Bits) (offset : Nat) :
    (fetchByteDialogue pc offset : Dialogue ε δ (BitVec 8)).Confined (fun _ => True) (fun _ => False)
      fun _ => True := by
  have hquery : (query (.memory (pc.advance offset)) : Dialogue ε δ Bits).Confined (fun _ => True)
      (fun _ => False) fun _ => True := confined_query trivial
  exact hquery.bind fun _ _ => confined_pure trivial

/-- A fetch makes no changes. -/
theorem fetchDialogue_confined :
    (fetchDialogue : Dialogue ε δ (Bits × BitVec 32)).Confined (fun _ => True) (fun _ => False)
      fun _ => True := by
  have hquery : (query .pc : Dialogue ε δ Bits).Confined (fun _ => True) (fun _ => False) fun _ => True :=
    confined_query trivial
  refine hquery.bind fun pc _ => ?_
  refine (fetchByteDialogue_confined pc 0).bind fun b0 _ => ?_
  refine (fetchByteDialogue_confined pc 1).bind fun b1 _ => ?_
  refine (fetchByteDialogue_confined pc 2).bind fun b2 _ => ?_
  refine (fetchByteDialogue_confined pc 3).bind fun b3 _ => ?_
  exact confined_pure trivial

namespace Dialogue

variable {reads : Read → Prop} {effects : Effect → Prop} {result : α → Prop}

section Machine

variable [Machine σ ε] {d : Dialogue ε δ α} {s s' : σ}

theorem Confined.result_of_ok (hd : d.Confined reads effects result) {a : α} (hrun : d.run s = (.ok a, s')) :
    result a := by
  induction d generalizing s with
  | done answer => exact hd a (congrArg Prod.fst hrun)
  | look next ih => exact hd.elim
  | ask q next ih =>
    cases hask : (q.ask : Action σ Bits) s with
    | mk answer t =>
      cases answer with
      | ok value =>
        rw [run_ask hask] at hrun
        exact ih value (hd.2 value) hrun
      | error fault =>
        rw [run_ask_fault hask] at hrun
        cases congrArg Prod.fst hrun
  | make c next ih =>
    cases hmake : (c.make : Action σ Unit) s with
    | mk answer t =>
      cases answer with
      | ok u =>
        rw [run_make hmake] at hrun
        exact ih hd.2 hrun
      | error fault =>
        rw [run_make_fault hmake] at hrun
        cases congrArg Prod.fst hrun

/-- What relates the states before and after each such read and each such change relates those
    before and after the dialogue. -/
theorem Confined.run_related {R : σ → σ → Prop} (hd : d.Confined reads effects result) (hrefl : ∀ s, R s s)
    (htrans : ∀ s t u, R s t → R t u → R s u)
    (hask : ∀ (q : Query) s, reads q.read → R s ((q.ask : Action σ Bits) s).2)
    (hmake : ∀ (c : Change ε) s, effects c.effect → R s ((c.make : Action σ Unit) s).2) (s : σ) :
    R s (d.run s).2 := by
  induction d generalizing s with
  | done answer => exact hrefl s
  | look next ih => exact hd.elim
  | ask q next ih =>
    have hfirst := hask q s hd.1
    cases hresult : (q.ask : Action σ Bits) s with
    | mk answer t =>
      rw [hresult] at hfirst
      cases answer with
      | ok value =>
        rw [run_ask hresult]
        exact htrans _ _ _ hfirst (ih value (hd.2 value) t)
      | error fault =>
        rw [run_ask_fault hresult]
        exact hfirst
  | make c next ih =>
    have hfirst := hmake c s hd.1
    cases hresult : (c.make : Action σ Unit) s with
    | mk answer t =>
      rw [hresult] at hfirst
      cases answer with
      | ok u =>
        rw [run_make hresult]
        exact htrans _ _ _ hfirst (ih hd.2 t)
      | error fault =>
        rw [run_make_fault hresult]
        exact hfirst

/-- An access of a confined dialogue is such a read or such a change. -/
theorem Confined.of_mem_calls (hd : d.Confined reads effects result) {access : Access ε}
    (hmem : access ∈ d.calls s) :
    (∃ (q : Query) (value : Bits), reads q.read ∧ access = q.access value) ∨
      ∃ c : Change ε, effects c.effect ∧ access = c.access := by
  induction d generalizing s with
  | done answer => cases hmem
  | look next ih => exact hd.elim
  | ask q next ih =>
    cases hask : (q.ask : Action σ Bits) s with
    | mk answer t =>
      simp only [calls, hask] at hmem
      cases answer with
      | ok value =>
        obtain rfl | hlater := List.mem_cons.mp hmem
        · exact .inl ⟨q, value, hd.1, rfl⟩
        · exact ih value (hd.2 value) hlater
      | error fault => cases hmem
  | make c next ih =>
    cases hmake : (c.make : Action σ Unit) s with
    | mk answer t =>
      simp only [calls, hmake] at hmem
      obtain rfl | hlater := List.mem_cons.mp hmem
      · exact .inr ⟨c, hd.1, rfl⟩
      · cases answer with
        | ok u => exact ih hd.2 hlater
        | error fault => cases hlater

/-- A dialogue raises nothing if it makes no such change. -/
theorem Confined.raise_notMem_calls (hd : d.Confined reads effects result) (hquiet : ¬effects .trap)
    (cause : ε) : Access.raise cause ∉ d.calls s := by
  intro hmem
  obtain ⟨q, value, _, haccess⟩ | ⟨c, heffect, haccess⟩ := hd.of_mem_calls hmem
  · cases q <;> cases haccess
  · cases c with
    | raise cause' => exact hquiet heffect
    | pc value => cases haccess
    | register id value => cases haccess
    | memory address value => cases haccess

end Machine

/-- What is made after a dialogue is made by it or by what goes on from its result. -/
theorem mem_calls_bind [Machine σ ε] (d : Dialogue ε δ α) (f : α → Dialogue ε δ β) {s : σ} {access : Access ε}
    (hmem : access ∈ (d >>= f).calls s) :
    access ∈ d.calls s ∨ ∃ a s', d.run s = (.ok a, s') ∧ access ∈ (f a).calls s' := by
  rw [bind_eq] at hmem
  induction d generalizing s with
  | done answer =>
    cases answer with
    | ok a => exact .inr ⟨a, s, rfl, hmem⟩
    | error stop => cases hmem
  | look next ih => exact ih _ _ hmem
  | ask q next ih =>
    cases hask : (q.ask : Action σ Bits) s with
    | mk answer t =>
      simp only [bind, calls, hask] at hmem ⊢
      cases answer with
      | error fault => cases hmem
      | ok value =>
        rw [run_ask hask]
        obtain rfl | hlater := List.mem_cons.mp hmem
        · exact .inl List.mem_cons_self
        · exact (ih value hlater).imp_left (List.mem_cons_of_mem _)
  | make c next ih =>
    cases hmake : (c.make : Action σ Unit) s with
    | mk answer t =>
      simp only [bind, calls, hmake] at hmem ⊢
      obtain rfl | hlater := List.mem_cons.mp hmem
      · exact .inl List.mem_cons_self
      · cases answer with
        | error fault => cases hlater
        | ok u =>
          rw [run_make hmake]
          exact (ih hlater).imp_left (List.mem_cons_of_mem _)

theorem calls_mapError [Machine σ ε] (d : Dialogue ε δ α) (f : δ → γ) (s : σ) :
    (d.mapError f).calls s = d.calls s := by
  induction d generalizing s with
  | done answer => rfl
  | look next ih => exact ih _ _ s
  | ask q next ih => simp only [mapError, calls, ih]
  | make c next ih => simp only [mapError, calls, ih]

end Dialogue

end RiscvSemantics
