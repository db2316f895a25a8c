import RiscvSemantics.Proofs.Bits.Width
import RiscvSemantics.Proofs.Dialogue.Run
import RiscvSemantics.Proofs.Faultless.Machine

namespace RiscvSemantics

open Dialogue Violation

variable {σ ε ω δ γ α β : Type}

namespace Violation

theorem of_check {p : Prop} [Decidable p] {violation : Violation} {u : Unit}
    (hok : (if p then .ok () else .error violation : Except Violation Unit) = .ok u) : p := by
  split at hok
  · assumption
  · cases hok

theorem width_of_requireRegisterId {id : Bits} {u : Unit} (hok : requireRegisterId id = .ok u) :
    id.width = registerIdBits :=
  of_check hok

theorem width_of_requireEqualWidths {junction : Junction} {a b : Bits} {u : Unit}
    (hok : requireEqualWidths junction a b = .ok u) : a.width = b.width :=
  of_check hok

theorem le_of_requireFits {width : Nat} {u : Unit} (hok : requireFits width = .ok u) : width ≤ 64 :=
  of_check hok

theorem le_of_requireWidening {a : Bits} {target : Nat} {u : Unit} (hok : requireWidening a target = .ok u) :
    target ≤ 64 ∧ a.width ≤ target := by
  unfold requireWidening at hok
  cases hfits : requireFits target with
  | error violation =>
    rw [hfits] at hok
    cases hok
  | ok u =>
    rw [hfits] at hok
    refine ⟨le_of_requireFits hfits, Nat.le_of_not_lt fun hnarrow => ?_⟩
    change (if target < a.width then Except.error _ else Except.ok ()) = Except.ok _ at hok
    rw [if_pos hnarrow] at hok
    cases hok

end Violation

namespace Dialogue

/-- Whatever it is answered, and at whatever widths, the dialogue does not end in a fault,
    and it names registers by five bits. -/
def Faultless : Dialogue ε δ α → Prop
  | done answer => ∀ fault, answer ≠ .error (.fault fault)
  | look next => ∀ extensions cause?, (next extensions cause?).Faultless
  | ask q next => q.WellIndexed ∧ ∀ value, (next value).Faultless
  | make c next => c.WellIndexed ∧ next.Faultless

theorem faultless_pure (a : α) : (pure a : Dialogue ε δ α).Faultless := by
  intro fault hfault
  cases hfault

theorem faultless_checked (x : Except δ α) : (checked x : Dialogue ε δ α).Faultless := by
  cases x with
  | ok a => exact faultless_pure a
  | error e =>
    intro fault hfault
    cases hfault

theorem faultless_guarded {x : Except Fault α} (hx : ∃ a, x = .ok a) :
    (guarded x : Dialogue ε δ α).Faultless := by
  obtain ⟨a, rfl⟩ := hx
  exact faultless_pure a

theorem faultless_query {q : Query} (hindexed : q.WellIndexed) : (query q : Dialogue ε δ Bits).Faultless :=
  ⟨hindexed, faultless_pure⟩

theorem faultless_change {c : Change ε} (hindexed : c.WellIndexed) :
    (change c : Dialogue ε δ Unit).Faultless :=
  ⟨hindexed, faultless_pure ()⟩

theorem Faultless.bind {d : Dialogue ε δ α} {f : α → Dialogue ε δ β} (hd : d.Faultless)
    (hf : ∀ a, (f a).Faultless) : (d >>= f).Faultless := by
  rw [bind_eq]
  induction d with
  | done answer =>
    cases answer with
    | ok a => exact hf a
    | error stop =>
      intro fault hfault
      obtain rfl := Except.error.inj hfault
      exact hd fault rfl
  | look next ih => exact fun extensions cause? => ih extensions cause? (hd extensions cause?)
  | ask q next ih => exact ⟨hd.1, fun value => ih value (hd.2 value)⟩
  | make c next ih => exact ⟨hd.1, ih hd.2⟩

/-- What comes after a check may use that the check was passed. -/
theorem faultless_checked_bind {x : Except δ α} {f : α → Dialogue ε δ β}
    (hf : ∀ a, x = .ok a → (f a).Faultless) : (checked x >>= f).Faultless := by
  cases x with
  | ok a => exact hf a rfl
  | error e => exact faultless_checked (.error e)

theorem Faultless.mapError {d : Dialogue ε δ α} (hd : d.Faultless) (f : δ → γ) :
    (d.mapError f).Faultless := by
  induction d with
  | done answer =>
    intro fault hfault
    cases answer with
    | ok a => cases hfault
    | error stop =>
      cases stop with
      | fault fault => exact hd fault rfl
      | error e => cases hfault
  | look next ih => exact fun extensions cause? => ih extensions cause? (hd extensions cause?)
  | ask q next ih => exact ⟨hd.1, fun value => ih value (hd.2 value)⟩
  | make c next ih => exact ⟨hd.1, ih hd.2⟩

end Dialogue

/-- Before an operation that could fault, evaluation has checked what the operation asks
    for. -/
theorem Expr.dialogue_faultless (instruction : Instruction) (xlen : Nat) (hxlen : xlen ≤ 64) (e : Expr) :
    (e.dialogue instruction xlen hxlen : Dialogue ε Violation Bits).Faultless := by
  induction e with
  | literal value => exact faultless_pure value
  | operand format field => exact faultless_checked _
  | pc => exact faultless_query trivial
  | xlen => exact faultless_pure _
  | instructionBytes => exact faultless_pure _
  | register id ih =>
    refine ih.bind fun index => faultless_checked_bind fun _ hok => ?_
    have hindexed : (Query.register index).WellIndexed := width_of_requireRegisterId hok
    exact faultless_query hindexed
  | memory address ih =>
    refine ih.bind fun location => faultless_checked_bind fun _ _ => ?_
    refine Faultless.bind (faultless_query trivial) fun cell => ?_
    exact faultless_checked_bind fun _ _ => faultless_pure cell
  | binary op left right ihl ihr =>
    refine ihl.bind fun a => ihr.bind fun b => ?_
    cases hop : op.needsEqualWidths with
    | false =>
      obtain ⟨c, hc, _⟩ := op.apply_ok (a := a) (b := b) fun hneeds =>
        absurd (hop.symm.trans hneeds) (by decide)
      exact faultless_guarded ⟨c, hc⟩
    | true =>
      refine faultless_checked_bind fun _ hok => ?_
      obtain ⟨c, hc, _⟩ := op.apply_ok fun _ => width_of_requireEqualWidths hok
      exact faultless_guarded ⟨c, hc⟩
  | unary op inner ih => exact ih.bind fun a => faultless_pure _
  | zeroExtend width inner ih =>
    refine ih.bind fun a => faultless_checked_bind fun _ hok => ?_
    obtain ⟨hfits, hwidens⟩ := le_of_requireWidening hok
    obtain ⟨c, hc, _⟩ := Bits.zeroExtend_ok hfits hwidens
    exact faultless_guarded ⟨c, hc⟩
  | signExtend width inner ih =>
    refine ih.bind fun a => faultless_checked_bind fun _ hok => ?_
    obtain ⟨hfits, hwidens⟩ := le_of_requireWidening hok
    obtain ⟨c, hc, _⟩ := Bits.signExtend_ok hfits hwidens
    exact faultless_guarded ⟨c, hc⟩
  | extract start width source ih =>
    refine ih.bind fun a => faultless_checked_bind fun _ hok => ?_
    obtain ⟨c, hc, _⟩ := a.extract_ok start (le_of_requireFits hok)
    exact faultless_guarded ⟨c, hc⟩
  | concat high low ihh ihl =>
    refine ihh.bind fun a => ihl.bind fun b => faultless_checked_bind fun _ hok => ?_
    obtain ⟨c, hc, _⟩ := Bits.concat_ok (le_of_requireFits hok)
    exact faultless_guarded ⟨c, hc⟩
  | select condition yes no ihc ihy ihn =>
    refine ihc.bind fun c => ihy.bind fun a => ihn.bind fun b => ?_
    exact faultless_checked_bind fun _ _ => faultless_pure _

theorem Statement.dialogue_faultless (instruction : Instruction) (xlen : Nat) (hxlen : xlen ≤ 64)
    (statement : Statement ε) : (statement.dialogue instruction xlen hxlen).Faultless := by
  cases statement with
  | setRegister id value =>
    simp only [dialogue, preparation, bind_assoc, pure_bind, conclude]
    refine (id.dialogue_faultless instruction xlen hxlen).bind fun index => ?_
    refine faultless_checked_bind fun _ hok => ?_
    refine (value.dialogue_faultless instruction xlen hxlen).bind fun v => ?_
    have hindexed : (Change.register index v : Change ε).WellIndexed := width_of_requireRegisterId hok
    exact faultless_checked_bind fun _ _ => faultless_change hindexed
  | setMemory address value =>
    simp only [dialogue, preparation, bind_assoc, pure_bind, conclude]
    refine (address.dialogue_faultless instruction xlen hxlen).bind fun location => ?_
    refine faultless_checked_bind fun _ _ => ?_
    refine (value.dialogue_faultless instruction xlen hxlen).bind fun v => ?_
    exact faultless_checked_bind fun _ _ => faultless_change trivial
  | setPc value =>
    simp only [dialogue, preparation, bind_assoc, pure_bind, conclude]
    refine (value.dialogue_faultless instruction xlen hxlen).bind fun v => ?_
    exact faultless_checked_bind fun _ _ => faultless_change trivial
  | raiseIf condition cause =>
    simp only [dialogue, preparation, bind_assoc, pure_bind]
    refine (condition.dialogue_faultless instruction xlen hxlen).bind fun c => ?_
    split
    · exact faultless_change trivial
    · exact faultless_pure ()

theorem Statement.dialogueAll_faultless (instruction : Instruction) (xlen : Nat) (hxlen : xlen ≤ 64)
    (statements : List (Statement ε)) : (dialogueAll instruction xlen hxlen statements).Faultless := by
  induction statements with
  | nil => exact faultless_pure ()
  | cons statement rest ih => exact (statement.dialogue_faultless instruction xlen hxlen).bind fun _ => ih

theorem fetchByteDialogue_faultless (pc : Bits) (offset : Nat) :
    (fetchByteDialogue pc offset : Dialogue ε δ (BitVec 8)).Faultless :=
  Faultless.bind (faultless_query trivial) fun _ => faultless_pure _

/-- A fetch does not fault, however wide the program counter and the cells are. -/
theorem fetchDialogue_faultless : (fetchDialogue : Dialogue ε δ (Bits × BitVec 32)).Faultless := by
  refine Faultless.bind (faultless_query trivial) fun pc => ?_
  refine Faultless.bind (fetchByteDialogue_faultless pc 0) fun b0 => ?_
  refine Faultless.bind (fetchByteDialogue_faultless pc 1) fun b1 => ?_
  refine Faultless.bind (fetchByteDialogue_faultless pc 2) fun b2 => ?_
  exact Faultless.bind (fetchByteDialogue_faultless pc 3) fun b3 => faultless_pure _

namespace Catalog

variable (catalog : Catalog ω ε) (xlen : Nat) (hxlen : xlen ≤ 64)

theorem executeDialogue_faultless (pc : Bits) (word : BitVec 32) (extensions : Extensions) :
    (catalog.executeDialogue xlen hxlen pc word extensions).Faultless := by
  unfold executeDialogue
  split
  · exact faultless_checked _
  · exact (Statement.dialogueAll_faultless _ xlen hxlen _).mapError _

theorem stepDialogue_faultless : (catalog.stepDialogue xlen hxlen).Faultless :=
  Faultless.bind fetchDialogue_faultless fun (pc, word) extensions _ =>
    catalog.executeDialogue_faultless xlen hxlen pc word extensions

theorem runDialogue_faultless (budget : Nat) : (catalog.runDialogue xlen hxlen budget).Faultless := by
  induction budget with
  | zero => exact faultless_pure none
  | succ budget ih =>
    intro extensions cause?
    cases cause? with
    | some cause => exact faultless_pure (some cause)
    | none => exact (catalog.stepDialogue_faultless xlen hxlen).bind fun _ => ih

end Catalog

end RiscvSemantics
