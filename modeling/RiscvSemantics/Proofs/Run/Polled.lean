import RiscvSemantics.Proofs.Dialogue.Run

namespace RiscvSemantics

variable {σ ε ω : Type} [PolledMachine σ ε] {catalog : Catalog ω ε}

open Interpretation

/-- Without a listener it does not matter how long the whole run is. -/
theorem runFrom_silent (poll : StateM σ (Option ε)) (catalog : Catalog ω ε) (budget budget' remaining : Nat)
    (s : σ) :
    runFrom poll (fun _ _ _ => ()) catalog budget remaining () s =
      runFrom poll (fun _ _ _ => ()) catalog budget' remaining () s := by
  induction remaining generalizing s with
  | zero => rfl
  | succ remaining ih =>
    rw [runFrom, runFrom]
    split
    · rfl
    · split
      · exact ih _
      · rfl

theorem runPolled_zero (catalog : Catalog ω ε) (s : σ) : runPolled catalog 0 s = (.ok none, s) := rfl

/-- A run asks for the pending cause first. What it does then, it does to the machine that this has
    left. -/
theorem runPolled_succ (catalog : Catalog ω ε) (budget : Nat) (s : σ) :
    runPolled catalog (budget + 1) s =
      match Machine.pending s with
      | some cause => (.ok (some cause), PolledMachine.polled s)
      | none => (step catalog >>= fun _ => runPolled catalog budget) (PolledMachine.polled s) := by
  have hstep (s : σ) :
      stepWith (fun _ _ _ => ()) catalog () s = ((step catalog s).1, (), (step catalog s).2) := rfl
  rw [runPolled, runFrom, PolledMachine.poll]
  cases Machine.pending s with
  | some cause => rfl
  | none =>
    simp only [hstep]
    cases hresult : step catalog (PolledMachine.polled s) with
    | mk answer t =>
      cases answer with
      | ok u =>
        rw [bind_of_ok hresult]
        simp only [runFrom_silent _ _ (budget + 1) budget]
        rfl
      | error stop => rw [bind_of_error hresult]

/-- Where being asked changes nothing, a run is the one that only glances at the machine. -/
theorem runPolled_eq_run (hquiet : ∀ s : σ, PolledMachine.polled s = s) (catalog : Catalog ω ε) (budget : Nat) :
    (runPolled catalog budget : Interpretation σ RunError (Option ε)) = run catalog budget := by
  have hpoll : (PolledMachine.poll : StateM σ (Option ε)) = Machine.glance :=
    funext fun s => congrArg (Prod.mk _) (hquiet s)
  funext s
  rw [runPolled, hpoll]
  rfl

end RiscvSemantics
