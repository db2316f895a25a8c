import RiscvSemantics.Proofs.Record.FirstCause
import RiscvSemantics.Proofs.Run.Ending

namespace RiscvSemantics

variable {ω : Type} {x : Xlen} {catalog : Catalog ω Cause} {s t u : Hart x} {n k budget : Nat} {cause : Cause}

/-- The first cause that comes up among the accesses of a step. -/
def Hart.raised (catalog : Catalog ω Cause) (hart : Hart x) : Option Cause :=
  firstCause hart.ram.size ((catalog.stepDialogue x.bits x.bits_le).calls hart)

theorem Hart.trap_step (catalog : Catalog ω Cause) (hart : Hart x) :
    (step catalog hart).2.trap = hart.trap.or (hart.raised catalog) := by
  rw [step_eq_run]
  exact (Dialogue.trap_run _ hart).1

/-- Instructions are executed one after the other, whatever is pending, and none breaks off. Listed is what
    each of them raises. -/
inductive Catalog.Executed (catalog : Catalog ω Cause) : Hart x → List (Option Cause) → Hart x → Prop where
  | start (hart : Hart x) : Executed catalog hart [] hart
  | next {s t u : Hart x} {raised : List (Option Cause)} (hstep : step catalog s = (.ok (), t))
      (hrest : Executed catalog t raised u) : Executed catalog s (s.raised catalog :: raised) u

/-- What the step of a hart on which nothing is pending raises is pending after it. -/
theorem Hart.raised_eq (hpending : s.trap = none) (hstep : step catalog s = (.ok (), t)) :
    s.raised catalog = t.trap := by
  have htrap := s.trap_step catalog
  rw [hstep, hpending, Option.none_or] at htrap
  exact htrap.symm

theorem executed_nil_iff : catalog.Executed s [] t ↔ t = s := by
  constructor
  · rintro ⟨⟩
    rfl
  · rintro rfl
    exact .start t

theorem executed_cons_iff (hpending : s.trap = none) {raised : Option Cause} {rest : List (Option Cause)} :
    catalog.Executed s (raised :: rest) u ↔
      ∃ t, step catalog s = (.ok (), t) ∧ t.trap = raised ∧ catalog.Executed t rest u := by
  constructor
  · intro hexecuted
    cases hexecuted with
    | next hstep hrest => exact ⟨_, hstep, (Hart.raised_eq hpending hstep).symm, hrest⟩
  · rintro ⟨t, hstep, rfl, hrest⟩
    rw [← Hart.raised_eq hpending hstep]
    exact .next hstep hrest

/-- Where a run gets to, its steps have raised nothing up to the last one, and that one has raised what is
    pending there. -/
theorem executed_last_iff (hpending : s.trap = none) {raised : Option Cause} :
    catalog.Executed s (List.replicate k none ++ [raised]) t ↔ catalog.Passes s (k + 1) t ∧ t.trap = raised := by
  induction k generalizing s with
  | zero =>
    rw [List.replicate_zero, List.nil_append, executed_cons_iff hpending, Catalog.passes_succ_iff]
    constructor
    · rintro ⟨u, hstep, hraised, hrest⟩
      obtain rfl := executed_nil_iff.mp hrest
      exact ⟨⟨hpending, t, hstep, .start t⟩, hraised⟩
    · rintro ⟨⟨-, u, hstep, hrest⟩, hraised⟩
      obtain rfl := Catalog.passes_zero_iff.mp hrest
      exact ⟨t, hstep, hraised, .start t⟩
  | succ k ih =>
    rw [List.replicate_succ, List.cons_append, executed_cons_iff hpending, Catalog.passes_succ_iff]
    constructor
    · rintro ⟨u, hstep, hnone, hrest⟩
      obtain ⟨hpasses, hraised⟩ := (ih hnone).mp hrest
      exact ⟨⟨hpending, u, hstep, hpasses⟩, hraised⟩
    · rintro ⟨⟨-, u, hstep, hpasses⟩, hraised⟩
      have hnone : u.trap = none := (Catalog.passes_succ_iff.mp hpasses).1
      exact ⟨u, hstep, hnone, (ih hnone).mpr ⟨hpasses, hraised⟩⟩

theorem executed_quiet_iff (hpending : s.trap = none) :
    catalog.Executed s (List.replicate n none) t ↔ catalog.Passes s n t ∧ t.trap = none := by
  cases n with
  | zero =>
    rw [List.replicate_zero, executed_nil_iff, Catalog.passes_zero_iff]
    constructor
    · rintro rfl
      exact ⟨rfl, hpending⟩
    · exact And.left
  | succ k => rw [List.replicate_succ', executed_last_iff hpending]

section Ends

variable {halt : Option Cause} (hpending : s.trap = none) (hrun : run catalog budget s = (.ok halt, t))

include hpending hrun

/-- A run halts where an instruction has raised a cause and there is budget left. -/
theorem halt_eq_some_iff : halt = some cause ↔
    ∃ k, k + 1 < budget ∧ catalog.Executed s (List.replicate k none ++ [some cause]) t := by
  constructor
  · rintro rfl
    cases Catalog.ends_iff.mp hrun with
    | @halts steps rest _ _ hbudget hpasses htrap =>
      cases steps with
      | zero =>
        obtain rfl := Catalog.passes_zero_iff.mp hpasses
        exact absurd (hpending.symm.trans htrap) nofun
      | succ k => exact ⟨k, by omega, (executed_last_iff hpending).mpr ⟨hpasses, htrap⟩⟩
  · rintro ⟨k, hlt, hexecuted⟩
    obtain ⟨hpasses, htrap⟩ := (executed_last_iff hpending).mp hexecuted
    obtain ⟨rest, rfl⟩ := Nat.exists_eq_add_of_lt hlt
    rw [Nat.add_assoc, hpasses.run_add, run_of_pending htrap] at hrun
    exact (Except.ok.inj (congrArg Prod.fst hrun)).symm

/-- A run that is used up can end with a cause pending, which its last instruction has raised. -/
theorem trap_eq_some_iff : halt = none ∧ t.trap = some cause ↔
    ∃ k, k + 1 = budget ∧ catalog.Executed s (List.replicate k none ++ [some cause]) t := by
  constructor
  · rintro ⟨rfl, htrap⟩
    cases Catalog.ends_iff.mp hrun with
    | usedUp hpasses =>
      cases budget with
      | zero =>
        obtain rfl := Catalog.passes_zero_iff.mp hpasses
        exact absurd (hpending.symm.trans htrap) nofun
      | succ k => exact ⟨k, rfl, (executed_last_iff hpending).mpr ⟨hpasses, htrap⟩⟩
  · rintro ⟨k, rfl, hexecuted⟩
    obtain ⟨hpasses, htrap⟩ := (executed_last_iff hpending).mp hexecuted
    rw [hpasses.run_eq] at hrun
    exact ⟨(Except.ok.inj (congrArg Prod.fst hrun)).symm, htrap⟩

/-- Otherwise nothing was raised. -/
theorem trap_eq_none_iff : halt = none ∧ t.trap = none ↔ catalog.Executed s (List.replicate budget none) t := by
  rw [executed_quiet_iff hpending]
  constructor
  · rintro ⟨rfl, htrap⟩
    cases Catalog.ends_iff.mp hrun with
    | usedUp hpasses => exact ⟨hpasses, htrap⟩
  · rintro ⟨hpasses, htrap⟩
    rw [hpasses.run_eq] at hrun
    exact ⟨(Except.ok.inj (congrArg Prod.fst hrun)).symm, htrap⟩

end Ends

end RiscvSemantics
