import RiscvSemantics.Proofs.Dialogue.Run

namespace RiscvSemantics

variable {σ ω ε : Type} [Machine σ ε] {catalog : Catalog ω ε} {budget n : Nat} {s t u : σ}

open Interpretation

/-- A run takes so many steps from one state to another. None of them breaks off, and before
    each no cause is pending. -/
inductive Catalog.Passes (catalog : Catalog ω ε) : σ → Nat → σ → Prop where
  | start (s : σ) : Passes catalog s 0 s
  | next {s t u : σ} {k : Nat} (hpending : Machine.pending s = none) (hstep : step catalog s = (.ok (), t))
      (hrest : Passes catalog t k u) : Passes catalog s (k + 1) u

theorem Catalog.passes_zero_iff : catalog.Passes s 0 t ↔ t = s := by
  constructor
  · rintro ⟨⟩
    rfl
  · rintro rfl
    exact .start t

theorem Catalog.passes_succ_iff :
    catalog.Passes s (n + 1) u ↔
      Machine.pending s = none ∧ ∃ t, step catalog s = (.ok (), t) ∧ catalog.Passes t n u := by
  constructor
  · intro hpasses
    cases hpasses with
    | next hpending hstep hrest => exact ⟨hpending, _, hstep, hrest⟩
  · rintro ⟨hpending, t, hstep, hrest⟩
    exact .next hpending hstep hrest

theorem run_of_pending {cause : ε} (hpending : Machine.pending s = some cause) :
    run catalog (budget + 1) s = (.ok (some cause), s) := by
  rw [run_eq_run, runDialogue_succ, hpending]

theorem run_of_step (hpending : Machine.pending s = none) (hstep : step catalog s = (.ok (), t)) :
    run catalog (budget + 1) s = run catalog budget t := by
  rw [run_eq_run, run_eq_run, runDialogue_succ, hpending]
  exact bind_of_ok hstep _

theorem run_of_stop {stop : Stop RunError} (hpending : Machine.pending s = none)
    (hstep : step catalog s = (.error stop, t)) :
    run catalog (budget + 1) s = (.error stop, t) := by
  rw [run_eq_run, runDialogue_succ, hpending]
  exact bind_of_error hstep _

/-- What a run with some budget left does first: it halts with what is pending, or it takes a step
    and goes on with the rest of its budget, or it takes a step that breaks off. -/
inductive Catalog.Begins (catalog : Catalog ω ε) (s : σ) : Prop where
  | halts {cause : ε} (hpending : Machine.pending s = some cause)
      (hrun : ∀ budget, run catalog (budget + 1) s = (.ok (some cause), s))
  | goesOn {t : σ} (hpending : Machine.pending s = none) (hstep : step catalog s = (.ok (), t))
      (hrun : ∀ budget, run catalog (budget + 1) s = run catalog budget t)
  | breaksOff {stop : Stop RunError} {t : σ} (hpending : Machine.pending s = none)
      (hstep : step catalog s = (.error stop, t))
      (hrun : ∀ budget, run catalog (budget + 1) s = (.error stop, t))

theorem Catalog.begins (catalog : Catalog ω ε) (s : σ) : catalog.Begins s := by
  cases hpending : Machine.pending s with
  | some cause => exact .halts hpending fun _ => run_of_pending hpending
  | none =>
    cases hstep : step catalog s with
    | mk answer t =>
      cases answer with
      | ok u => exact .goesOn hpending hstep fun _ => run_of_step hpending hstep
      | error stop => exact .breaksOff hpending hstep fun _ => run_of_stop hpending hstep

/-- A run goes on from any state that it passes with the rest of its budget. -/
theorem Catalog.Passes.run_add (hpasses : catalog.Passes s n t) (budget : Nat) :
    run catalog (n + budget) s = run catalog budget t := by
  induction hpasses with
  | start s => rw [Nat.zero_add]
  | @next s t u k hpending hstep hrest ih => rw [Nat.add_right_comm, run_of_step hpending hstep, ih]

/-- What holds in the beginning and is kept by every step, also by one that breaks off, holds in
    every state that a run passes. -/
theorem Catalog.Passes.preserves {p : σ → Prop} (hstep : ∀ s, p s → p (step catalog s).2)
    (hpasses : catalog.Passes s n t) (hs : p s) : p t := by
  induction hpasses with
  | start s => exact hs
  | @next s t u k _ hdone _ ih =>
    have ht := hstep s hs
    rw [hdone] at ht
    exact ih ht

theorem run_preserves {p : σ → Prop} (hstep : ∀ s, p s → p (step catalog s).2) (hs : p s) :
    p (run catalog budget s).2 := by
  induction budget generalizing s with
  | zero => exact hs
  | succ budget ih =>
    have ht := hstep s hs
    cases catalog.begins s with
    | halts hpending hrun =>
      rw [hrun]
      exact hs
    | goesOn hpending hdone hrun =>
      rw [hdone] at ht
      rw [hrun]
      exact ih ht
    | breaksOff hpending hstop hrun =>
      rw [hstop] at ht
      rw [hrun]
      exact ht

end RiscvSemantics
