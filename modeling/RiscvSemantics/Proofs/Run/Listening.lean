import RiscvSemantics.Proofs.Run.Progress

namespace RiscvSemantics

variable {σ ε ω κ : Type} [Machine σ ε]

/-- Whoever listens, a step goes as with nobody listening. -/
theorem exists_stepWith (listen : Listener κ σ ω ε) (catalog : Catalog ω ε) (heard : κ) (s : σ) :
    ∃ heard', stepWith listen catalog heard s = ((step catalog s).1, heard', (step catalog s).2) := by
  rw [step, stepWith, stepWith]
  cases (fetch : Action σ (Bits × BitVec 32)) s with
  | mk answer fetched =>
    cases answer with
    | error fault => exact ⟨heard, rfl⟩
    | ok fetchedWord =>
      obtain ⟨pc, word⟩ := fetchedWord
      dsimp only
      cases catalog.decode word (Machine.extensions fetched) with
      | none => exact ⟨_, rfl⟩
      | some decoded => exact ⟨_, rfl⟩

theorem exists_runFrom (listen : Listener κ σ ω ε) (catalog : Catalog ω ε) (budget remaining : Nat)
    (heard : κ) (s : σ) :
    ∃ heard', runFrom Machine.glance listen catalog budget remaining heard s =
      ((run catalog remaining s).1, heard', (run catalog remaining s).2) := by
  induction remaining generalizing heard s with
  | zero => exact ⟨_, rfl⟩
  | succ remaining ih =>
    rw [runFrom, Machine.glance]
    cases catalog.begins s with
    | halts hpending hrun =>
      rw [hpending, hrun]
      exact ⟨_, rfl⟩
    | goesOn hpending hstep hrun =>
      obtain ⟨heard', hwith⟩ := exists_stepWith listen catalog heard s
      rw [hstep] at hwith
      rw [hpending, hrun]
      simp only [hwith]
      exact ih heard' _
    | breaksOff hpending hstep hrun =>
      obtain ⟨heard', hwith⟩ := exists_stepWith listen catalog heard s
      rw [hstep] at hwith
      rw [hpending, hrun]
      simp only [hwith]
      exact ⟨_, rfl⟩

/-- So does a run. -/
theorem exists_runWith (listen : Listener κ σ ω ε) (catalog : Catalog ω ε) (budget : Nat) (heard : κ) (s : σ) :
    ∃ heard', runWith listen catalog budget heard s =
      ((run catalog budget s).1, heard', (run catalog budget s).2) :=
  exists_runFrom listen catalog budget budget heard s

end RiscvSemantics
