import RiscvSemantics.Proofs.Hart.Access
import RiscvSemantics.Proofs.Record.Transparent
import RiscvSemantics.Rv32.Semantics

namespace RiscvSemantics

variable {ε δ ω α : Type} {x : Xlen}

/-- The location that an access reads; none if it is no read. -/
def Access.source? : Access ε → Option Location
  | .getPc _ => some .pc
  | .getRegister id _ => some (.register id.toNat)
  | .getMemory address _ => some (.byte address.toNat)
  | .setPc _ | .setRegister .. | .setMemory .. | .raise _ => none

/-- The location that an access writes; none if it is no write. -/
def Access.target? : Access ε → Option Location
  | .setPc _ => some .pc
  | .setRegister id _ => some (.register id.toNat)
  | .setMemory address _ => some (.byte address.toNat)
  | .getPc _ | .getRegister .. | .getMemory .. | .raise _ => none

@[simp] theorem Query.source?_access (q : Query) (value : Bits) :
    (q.access value : Access ε).source? = some q.location := by
  cases q <;> rfl

@[simp] theorem Query.target?_access (q : Query) (value : Bits) :
    (q.access value : Access ε).target? = none := by
  cases q <;> rfl

@[simp] theorem Change.target?_access (c : Change ε) : c.access.target? = c.location? := by
  cases c <;> rfl

/-- Some access reads the location, and none before it has written there. -/
def ReadsFirst (accesses : List (Access ε)) (location : Location) : Prop :=
  ∃ before access after, accesses = before ++ access :: after ∧ access.source? = some location ∧
    ∀ earlier ∈ before, earlier.target? ≠ some location

def Writes (accesses : List (Access ε)) (location : Location) : Prop :=
  ∃ access ∈ accesses, access.target? = some location

section Accesses

variable {access : Access ε} {rest : List (Access ε)} {location : Location}

theorem readsFirst_cons : ReadsFirst (access :: rest) location ↔
    access.source? = some location ∨ access.target? ≠ some location ∧ ReadsFirst rest location := by
  constructor
  · rintro ⟨before, reading, after, hsplit, hsource, hbefore⟩
    obtain ⟨rfl, hsplit⟩ | ⟨earlier, rfl, rfl⟩ := List.cons_eq_append_iff.mp hsplit
    · obtain ⟨rfl, rfl⟩ := List.cons.inj hsplit
      exact .inl hsource
    · obtain ⟨htarget, hearlier⟩ := List.forall_mem_cons.mp hbefore
      exact .inr ⟨htarget, earlier, reading, after, rfl, hsource, hearlier⟩
  · rintro (hsource | ⟨htarget, before, reading, after, rfl, hsource, hbefore⟩)
    · exact ⟨[], access, rest, rfl, hsource, fun _ hearlier => absurd hearlier List.not_mem_nil⟩
    · exact ⟨access :: before, reading, after, rfl, hsource, List.forall_mem_cons.mpr ⟨htarget, hbefore⟩⟩

instance decidableReadsFirst (location : Location) :
    (accesses : List (Access ε)) → Decidable (ReadsFirst accesses location)
  | [] => .isFalse fun ⟨_, _, _, hsplit, _⟩ =>
    List.append_ne_nil_of_right_ne_nil _ (List.cons_ne_nil _ _) hsplit.symm
  | _ :: rest =>
    have := decidableReadsFirst location rest
    decidable_of_iff _ readsFirst_cons.symm

theorem writes_cons :
    Writes (access :: rest) location ↔ access.target? = some location ∨ Writes rest location := by
  simp only [Writes, List.mem_cons, exists_eq_or_imp]

theorem writes_singleton : Writes [access] location ↔ access.target? = some location := by
  simp only [Writes, List.mem_singleton, exists_eq_left]

end Accesses

namespace Hart

/-- Two harts that a program can tell apart only by what their locations hold. -/
structure Alike (a b : Hart x) : Prop where
  size : a.ram.size = b.ram.size
  extensions : a.extensions = b.extensions
  trap : a.trap = b.trap

/-- Two harts go through the same accesses, from `a` to `a'` and from `b` to `b'`: what has been
    written is the same in both, and the rest is in each what it was. -/
structure Coincide (accesses : List (Access Cause)) (a b a' b' : Hart x) : Prop where
  alike : a'.Alike b'
  written : ∀ location, Writes accesses location → a'.view.value location = b'.view.value location
  kept : ∀ location, ¬Writes accesses location →
    a'.view.value location = a.view.value location ∧ b'.view.value location = b.view.value location

variable {a b a₁ b₁ a' b' : Hart x} {access : Access Cause} {rest : List (Access Cause)}

theorem Coincide.nil (halike : a.Alike b) : Coincide [] a b a b where
  alike := halike
  written := by
    rintro location ⟨access, hmem, _⟩
    cases hmem
  kept _ _ := ⟨rfl, rfl⟩

theorem Coincide.cons (hfirst : Coincide [access] a b a₁ b₁) (hrest : Coincide rest a₁ b₁ a' b') :
    Coincide (access :: rest) a b a' b' where
  alike := hrest.alike
  written location hwrites := by
    by_cases hlater : Writes rest location
    · exact hrest.written location hlater
    · have hnow : Writes [access] location :=
        writes_singleton.mpr ((writes_cons.mp hwrites).resolve_right hlater)
      obtain ⟨hkepta, hkeptb⟩ := hrest.kept location hlater
      rw [hkepta, hkeptb]
      exact hfirst.written location hnow
  kept location hnot := by
    have hlater : ¬Writes rest location := fun h => hnot (writes_cons.mpr (.inr h))
    have hnow : ¬Writes [access] location := fun h => hnot (writes_cons.mpr (.inl (writes_singleton.mp h)))
    obtain ⟨hkepta, hkeptb⟩ := hrest.kept location hlater
    obtain ⟨hfirsta, hfirstb⟩ := hfirst.kept location hnow
    exact ⟨hkepta.trans hfirsta, hkeptb.trans hfirstb⟩

/-- What is read later without having been written is what it was; what has just been written
    is the same in both. -/
theorem Coincide.agree (hfirst : Coincide [access] a b a₁ b₁)
    (hagree : ∀ location, ReadsFirst (access :: rest) location →
      a.view.value location = b.view.value location) :
    ∀ location, ReadsFirst rest location → a₁.view.value location = b₁.view.value location := by
  intro location hreads
  by_cases htarget : access.target? = some location
  · exact hfirst.written location (writes_singleton.mpr htarget)
  · obtain ⟨hkepta, hkeptb⟩ := hfirst.kept location (mt writes_singleton.mp htarget)
    rw [hkepta, hkeptb]
    exact hagree location (readsFirst_cons.mpr (.inr ⟨htarget, hreads⟩))

theorem value_trap (hart : Hart x) (trap : Option Cause) (location : Location) :
    ({ hart with trap } : Hart x).view.value location = hart.view.value location := by
  cases location <;> rfl

/-- Harts that agree where they are asked give the same answer. -/
theorem Coincide.ask {q : Query} {answer answer' : Bits} (halike : a.Alike b)
    (ha : (q.ask : Action (Hart x) Bits) a = (.ok answer, a₁))
    (hb : (q.ask : Action (Hart x) Bits) b = (.ok answer', b₁))
    (hagree : a.view.value q.location = b.view.value q.location) :
    answer' = answer ∧ Coincide [q.access answer] a b a₁ b₁ := by
  obtain ⟨hnumber, hwidth, rfl⟩ := answers_of_ask ha
  obtain ⟨hnumber', hwidth', rfl⟩ := answers_of_ask hb
  obtain rfl : answer' = answer :=
    Bits.ext (hwidth'.trans hwidth.symm) (hnumber'.trans (hagree.symm.trans hnumber.symm))
  refine ⟨rfl, ⟨halike.size, halike.extensions, ?_⟩, fun location hwrites => ?_, fun location _ => ?_⟩
  · rw [halike.trap, halike.size]
  · have htarget := writes_singleton.mp hwrites
    rw [Query.target?_access] at htarget
    cases htarget
  · exact ⟨a.value_trap _ location, b.value_trap _ location⟩

theorem Coincide.make {c : Change Cause} (halike : a.Alike b)
    (ha : (c.make : Action (Hart x) Unit) a = (.ok (), a₁))
    (hb : (c.make : Action (Hart x) Unit) b = (.ok (), b₁)) : Coincide [c.access] a b a₁ b₁ := by
  have hchangesa := changes_of_make ha
  have hchangesb := changes_of_make hb
  refine ⟨⟨?_, ?_, ?_⟩, fun location hwrites => ?_, fun location hnot => ?_⟩
  · rw [hchangesa.size, hchangesb.size, halike.size]
  · rw [hchangesa.extensions, hchangesb.extensions, halike.extensions]
  · rw [hchangesa.trap, hchangesb.trap, halike.trap, halike.size]
  · have htarget := writes_singleton.mp hwrites
    rw [Change.target?_access] at htarget
    rw [hchangesa.written location htarget, hchangesb.written location htarget, halike.size]
  · have hne : c.location? ≠ some location := fun h => hnot (writes_singleton.mpr (c.target?_access.trans h))
    exact ⟨hchangesa.kept location hne, hchangesb.kept location hne⟩

end Hart

/-- A dialogue goes with two harts alike if they agree on what it reads before it has written
    there. -/
theorem Dialogue.run_coincide (d : Dialogue Cause δ α) (hd : d.Faultless) {a b : Hart x} (halike : a.Alike b)
    (hagree : ∀ location, ReadsFirst (d.calls a) location → a.view.value location = b.view.value location) :
    (d.run b).1 = (d.run a).1 ∧ d.calls b = d.calls a ∧
      Hart.Coincide (d.calls a) a b (d.run a).2 (d.run b).2 := by
  induction d generalizing a b with
  | done answer => exact ⟨rfl, rfl, .nil halike⟩
  | look next ih =>
    have hextensions : Machine.extensions a = Machine.extensions b := halike.extensions
    have hpending : Machine.pending a = Machine.pending b := halike.trap
    simp only [run, calls, ← hextensions, ← hpending]
    exact ih _ _ (hd _ _) halike hagree
  | ask q next ih =>
    obtain ⟨answer, a₁, ha, _⟩ := (Hart.faultless x).ask (s := a) trivial hd.1
    obtain ⟨answer', b₁, hb, _⟩ := (Hart.faultless x).ask (s := b) trivial hd.1
    simp only [calls, ha] at hagree
    have hread : a.view.value q.location = b.view.value q.location :=
      hagree _ (readsFirst_cons.mpr (.inl (q.source?_access answer)))
    obtain ⟨rfl, hfirst⟩ := Hart.Coincide.ask halike ha hb hread
    obtain ⟨hanswer, hcalls, hrest⟩ := ih answer' (hd.2 answer') hfirst.alike (hfirst.agree hagree)
    rw [run_ask ha, run_ask hb]
    simp only [calls, ha, hb]
    exact ⟨hanswer, congrArg _ hcalls, hfirst.cons hrest⟩
  | make c next ih =>
    obtain ⟨a₁, ha, _⟩ := (Hart.faultless x).make (s := a) trivial hd.1
    obtain ⟨b₁, hb, _⟩ := (Hart.faultless x).make (s := b) trivial hd.1
    simp only [calls, ha] at hagree
    have hfirst := Hart.Coincide.make halike ha hb
    obtain ⟨hanswer, hcalls, hrest⟩ := ih hd.2 hfirst.alike (hfirst.agree hagree)
    rw [run_make ha, run_make hb]
    simp only [calls, ha, hb]
    exact ⟨hanswer, congrArg _ hcalls, hfirst.cons hrest⟩

/-- A run on a machine that has an empty record before. -/
def Catalog.recordedRun {σ : Type} [Machine σ ε] (catalog : Catalog ω ε) (budget : Nat) (s : σ) :
    Except (Stop RunError) (Option ε) × Recorded σ ε :=
  (run catalog budget : Interpretation (Recorded σ ε) RunError (Option ε)) (Recorded.new s)

/-- A run depends on no more than what its record reads. On a second hart that holds the same
    wherever the record reads before it has written, though it may differ anywhere else, the run
    ends alike and leaves the same record, with the same cause pending. What has been written is
    the same in both harts in the end, and each has kept the rest. -/
theorem Hart.run_depends_on_reads (catalog : Catalog ω Cause) (budget : Nat) {a b : Hart x}
    (halike : a.Alike b)
    (hagree : ∀ location, ReadsFirst (catalog.recordedRun budget a).2.record.toList location →
      a.view.value location = b.view.value location) :
    (catalog.recordedRun budget b).1 = (catalog.recordedRun budget a).1 ∧
      (catalog.recordedRun budget b).2.record = (catalog.recordedRun budget a).2.record ∧
      Coincide (catalog.recordedRun budget a).2.record.toList a b
        (catalog.recordedRun budget a).2.machine (catalog.recordedRun budget b).2.machine := by
  have hrecorded (hart : Hart x) : catalog.recordedRun budget hart =
      (((catalog.runDialogue x.bits x.bits_le budget).run hart).1,
        ⟨((catalog.runDialogue x.bits x.bits_le budget).run hart).2,
          ((catalog.runDialogue x.bits x.bits_le budget).calls hart).toArray⟩) := by
    rw [Catalog.recordedRun, run_eq_run]
    refine (Dialogue.run_recorded _ hart #[]).trans ?_
    rw [Array.empty_append]
    rfl
  rw [hrecorded a] at hagree ⊢
  rw [hrecorded b]
  obtain ⟨hanswer, hcalls, hcoincide⟩ :=
    Dialogue.run_coincide _ (catalog.runDialogue_faultless x.bits x.bits_le budget) halike hagree
  exact ⟨hanswer, congrArg List.toArray hcalls, hcoincide⟩

/-- `addi x1, x0, 5` and `add x2, x1, x1` read register 1 only after they have written it, so it does
    not matter what it held before: the second register becomes 10. -/
theorem Hart.run_overwrites_register :
    let program : ByteArray := ⟨#[0x93, 0x00, 0x50, 0x00, 0x33, 0x81, 0x10, 0x00]⟩
    let a : Hart .rv32 := ⟨Vector.replicate 32 0#32, program, Extensions.none, none⟩
    let b : Hart .rv32 := a.putRegister 1 7
    a.Alike b ∧
      (∀ location, ReadsFirst (Rv32.catalog.recordedRun 2 a).2.record.toList location →
        a.view.value location = b.view.value location) ∧
      (Rv32.catalog.recordedRun 2 b).2.record = (Rv32.catalog.recordedRun 2 a).2.record ∧
      (Rv32.catalog.recordedRun 2 b).2.machine.view.value (.register 2) = 10 := by
  intro program a b
  have halike : a.Alike b := ⟨rfl, rfl, rfl⟩
  have hunread : ¬ReadsFirst (Rv32.catalog.recordedRun 2 a).2.record.toList (.register 1) := by
    decide +kernel
  have hagree : ∀ location, ReadsFirst (Rv32.catalog.recordedRun 2 a).2.record.toList location →
      a.view.value location = b.view.value location := by
    intro location hreads
    have hne : location ≠ .register 1 := by
      rintro rfl
      exact hunread hreads
    rw [Hart.view_putRegister]
    exact (View.value_setRegister_of_ne _ _ _ hne).symm
  obtain ⟨_, hrecord, hcoincide⟩ := run_depends_on_reads Rv32.catalog 2 halike hagree
  refine ⟨halike, hagree, hrecord, ?_⟩
  have hwrites : Writes (Rv32.catalog.recordedRun 2 a).2.record.toList (.register 2) := by
    unfold Writes
    decide +kernel
  rw [← hcoincide.written (.register 2) hwrites]
  decide +kernel

end RiscvSemantics
