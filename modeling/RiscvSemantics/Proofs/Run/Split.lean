import RiscvSemantics.Machine.Hart
import RiscvSemantics.Machine.Recorded
import RiscvSemantics.Proofs.Run.Progress
import RiscvSemantics.Rv32.Semantics

namespace RiscvSemantics

variable {σ ω ε : Type} [Machine σ ε] {catalog : Catalog ω ε} {s t : σ} {n : Nat} {cause : ε}

theorem run_zero (catalog : Catalog ω ε) (s : σ) : run catalog 0 s = (.ok none, s) := rfl

/-- A run goes on with more budget only if the first part of it was used up. -/
theorem run_add (catalog : Catalog ω ε) (n m : Nat) (s : σ) :
    run catalog (n + m) s =
      match run catalog n s with
      | (.ok none, t) => run catalog m t
      | (answer, t) => (answer, t) := by
  induction n generalizing s with
  | zero => rw [Nat.zero_add, run_zero]
  | succ n ih =>
    rw [Nat.add_right_comm]
    cases catalog.begins s with
    | halts hpending hrun => rw [hrun, hrun]
    | goesOn hpending hstep hrun =>
      rw [hrun, hrun]
      exact ih _
    | breaksOff hpending hstep hrun => rw [hrun, hrun]

/-- A run halts only where its cause is pending. -/
theorem pending_of_halt (hrun : run catalog n s = (.ok (some cause), t)) : Machine.pending t = some cause := by
  induction n generalizing s with
  | zero =>
    rw [run_zero] at hrun
    cases hrun
  | succ n ih =>
    cases catalog.begins s with
    | halts hpending hfirst =>
      rw [hfirst] at hrun
      cases hrun
      exact hpending
    | goesOn hpending hstep hfirst =>
      rw [hfirst] at hrun
      exact ih hrun
    | breaksOff hpending hstep hfirst =>
      rw [hfirst] at hrun
      cases hrun

/-- What the runs from a state have to do with each other. A part of the budget can be run first,
    and the rest from where the part has led, if the part was used up. A halt lasts: more budget
    changes nothing about it, and a further run comes to it at once. -/
structure Catalog.Splits (catalog : Catalog ω ε) (s : σ) : Prop where
  split : ∀ n m, run catalog (n + m) s =
    match run catalog n s with
    | (.ok none, t) => run catalog m t
    | (answer, t) => (answer, t)
  absorbs : ∀ {n cause t}, run catalog n s = (.ok (some cause), t) →
    ∀ budget, n ≤ budget → run catalog budget s = (.ok (some cause), t)
  stays : ∀ {n cause t}, run catalog n s = (.ok (some cause), t) →
    ∀ budget, 0 < budget → run catalog budget t = (.ok (some cause), t)
  idle : run catalog 0 s = (.ok none, s)

theorem splits (catalog : Catalog ω ε) (s : σ) : catalog.Splits s where
  split n m := run_add catalog n m s
  absorbs := by
    intro n cause t hrun budget hle
    obtain ⟨m, rfl⟩ := Nat.exists_eq_add_of_le hle
    rw [run_add, hrun]
  stays := by
    intro n cause t hrun budget hpositive
    obtain ⟨m, rfl⟩ := Nat.exists_eq_add_of_lt hpositive
    rw [Nat.zero_add]
    exact run_of_pending (pending_of_halt hrun)
  idle := run_zero catalog s

/-- The budget of a run can be split anywhere, on every machine. It can on a machine with a record
    too, so the parts of a run make the accesses of the whole, in the same order, and where the
    machine with its record stays as it was no access is made at all. -/
theorem run_splits (catalog : Catalog ω ε) :
    (∀ s : σ, catalog.Splits s) ∧ ∀ recorded : Recorded σ ε, catalog.Splits recorded :=
  ⟨splits catalog, splits catalog⟩

/-- `lw x5, 14(x0)` reads beyond a memory of eight bytes. A run of that one step does not report
    the fault, one of two steps does, and so does any longer one, in whatever parts. -/
theorem run_halts_in_parts :
    let program : ByteArray := ⟨#[0x83, 0x22, 0xe0, 0x00, 0x93, 0x00, 0x50, 0x00]⟩
    let start : Recorded (Hart .rv32) Cause :=
      Recorded.new ⟨Vector.replicate 32 0#32, program, Extensions.none, none⟩
    (run Rv32.catalog 1 start).1.toOption = some none ∧
      (run Rv32.catalog 2 start).1.toOption = some (some .loadFault) ∧
      ∀ budget, run Rv32.catalog (2 + budget) start = run Rv32.catalog 2 start := by
  intro program start
  have hhalt : (run Rv32.catalog 2 start).1.toOption = some (some .loadFault) := by decide +kernel
  obtain ⟨-, hrecorded⟩ := run_splits (σ := Hart .rv32) Rv32.catalog
  have hsplits := hrecorded start
  refine ⟨by decide +kernel, hhalt, fun budget => ?_⟩
  cases hrun : run Rv32.catalog 2 start with
  | mk answer t =>
    rw [hrun] at hhalt
    cases answer with
    | error stop => cases hhalt
    | ok halt =>
      obtain rfl : halt = some .loadFault := Option.some.inj hhalt
      exact hsplits.absorbs hrun (2 + budget) (Nat.le_add_right 2 budget)

end RiscvSemantics
