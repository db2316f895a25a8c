import RiscvSemantics.Proofs.Run.Progress

namespace RiscvSemantics

variable {σ ω ε : Type}

/-- The word that is reported to be no instruction, and where it lies; none if something else is
    answered. -/
def RunError.undecodable? {α : Type} : Except (Stop RunError) α → Option (Bits × BitVec 32)
  | .error (.error (.undecodable pc word)) => some (pc, word)
  | .error (.error (.contract ..)) | .error (.fault _) | .ok _ => none

theorem RunError.eq_of_undecodable? {α : Type} {ended : Except (Stop RunError) α × σ} {pc : Bits}
    {word : BitVec 32} (hanswer : undecodable? ended.1 = some (pc, word)) :
    ended = (.error (.error (.undecodable pc word)), ended.2) := by
  obtain ⟨answer, t⟩ := ended
  cases answer with
  | ok a => cases hanswer
  | error stop =>
    cases stop with
    | fault fault => cases hanswer
    | error e =>
      cases e with
      | contract pc violation => cases hanswer
      | undecodable pc' word' =>
        cases hanswer
        rfl

variable [Machine σ ε] {catalog : Catalog ω ε} {budget n m : Nat} {s t u : σ}

/-- How a step comes to an answer and to the state after it. -/
inductive Catalog.StepEnds (catalog : Catalog ω ε) (s : σ) : Except (Stop RunError) Unit → σ → Prop where
  | faults {fault : Fault} {t : σ} (hfetch : (fetch : Action σ (Bits × BitVec 32)) s = (.error fault, t)) :
      StepEnds catalog s (.error (.fault fault)) t
  | undecodable {pc : Bits} {word : BitVec 32} {t : σ}
      (hfetch : (fetch : Action σ (Bits × BitVec 32)) s = (.ok (pc, word), t))
      (hdecode : catalog.decode word (Machine.extensions t) = none) :
      StepEnds catalog s (.error (.error (.undecodable pc word))) t
  | executes {pc : Bits} {word : BitVec 32} {fetched t : σ} {decoded : Decoded ω}
      {answer : Except (Stop Violation) Unit}
      (hfetch : (fetch : Action σ (Bits × BitVec 32)) s = (.ok (pc, word), fetched))
      (hdecode : catalog.decode word (Machine.extensions fetched) = some decoded)
      (hexecute : (catalog.semantics decoded.opcode).execute ⟨decoded.operands, instructionBytes⟩ fetched =
        (answer, t)) :
      StepEnds catalog s (answer.mapError (Stop.map (.contract pc))) t

theorem Catalog.StepEnds.step_eq {answer : Except (Stop RunError) Unit} (hends : catalog.StepEnds s answer t) :
    step catalog s = (answer, t) := by
  cases hends with
  | faults hfetch => simp only [step, stepWith, hfetch]
  | undecodable hfetch hdecode => simp only [step, stepWith, hfetch, hdecode]
  | executes hfetch hdecode hexecute => simp only [step, stepWith, hfetch, hdecode, hexecute]

/-- What has been fetched and decoded is executed. -/
theorem step_of_execute {pc : Bits} {word : BitVec 32} {fetched : σ} {decoded : Decoded ω}
    (hfetch : (fetch : Action σ (Bits × BitVec 32)) s = (.ok (pc, word), fetched))
    (hdecode : catalog.decode word (Machine.extensions fetched) = some decoded)
    (hexecute : (catalog.semantics decoded.opcode).execute ⟨decoded.operands, instructionBytes⟩ fetched =
      (.ok (), t)) : step catalog s = (.ok (), t) := by
  have hends : catalog.StepEnds s (.ok ()) t := .executes hfetch hdecode hexecute
  exact hends.step_eq

theorem Catalog.stepEnds (catalog : Catalog ω ε) (s : σ) :
    catalog.StepEnds s (step catalog s).1 (step catalog s).2 := by
  cases hfetch : (fetch : Action σ (Bits × BitVec 32)) s with
  | mk answer fetched =>
    cases answer with
    | error fault =>
      have hends : catalog.StepEnds s _ fetched := .faults hfetch
      rwa [hends.step_eq]
    | ok fetchedWord =>
      obtain ⟨pc, word⟩ := fetchedWord
      cases hdecode : catalog.decode word (Machine.extensions fetched) with
      | none =>
        have hends : catalog.StepEnds s _ fetched := .undecodable hfetch hdecode
        rwa [hends.step_eq]
      | some decoded =>
        have hends : catalog.StepEnds s _ _ := .executes hfetch hdecode rfl
        rwa [hends.step_eq]

/-- A step that is done has executed the formula of what it has fetched. -/
theorem exists_of_step_ok (hstep : step catalog s = (.ok (), t)) :
    ∃ pc word fetched decoded, (fetch : Action σ (Bits × BitVec 32)) s = (.ok (pc, word), fetched) ∧
      catalog.decode word (Machine.extensions fetched) = some decoded ∧
      (catalog.semantics decoded.opcode).execute ⟨decoded.operands, instructionBytes⟩ fetched = (.ok (), t) := by
  have hends := catalog.stepEnds s
  rw [hstep] at hends
  generalize hanswer : (Except.ok () : Except (Stop RunError) Unit) = answer at hends
  cases hends with
  | faults hfetch => cases hanswer
  | undecodable hfetch hdecode => cases hanswer
  | @executes pc word fetched _ decoded answer hfetch hdecode hexecute =>
    cases answer with
    | ok u => exact ⟨pc, word, fetched, decoded, hfetch, hdecode, hexecute⟩
    | error stop => cases hanswer

/-- A word that is reported to be no instruction is what has been fetched. -/
theorem fetch_of_undecodable {pc : Bits} {word : BitVec 32}
    (hstep : step catalog s = (.error (.error (.undecodable pc word)), t)) :
    (fetch : Action σ (Bits × BitVec 32)) s = (.ok (pc, word), t) ∧
      catalog.decode word (Machine.extensions t) = none := by
  have hends := catalog.stepEnds s
  rw [hstep] at hends
  generalize hanswer : (Except.error (.error (.undecodable pc word)) : Except (Stop RunError) Unit) = answer
    at hends
  cases hends with
  | faults hfetch => cases hanswer
  | undecodable hfetch hdecode =>
    cases hanswer
    exact ⟨hfetch, hdecode⟩
  | @executes pc word fetched _ decoded answer hfetch hdecode hexecute =>
    cases answer with
    | ok u => cases hanswer
    | error stop => cases stop <;> cases hanswer

/-- How a run of that budget comes to an answer and to its last state. -/
inductive Catalog.Ends (catalog : Catalog ω ε) (budget : Nat) (s : σ) :
    Except (Stop RunError) (Option ε) → σ → Prop where
  | usedUp {t : σ} (hpasses : catalog.Passes s budget t) : Ends catalog budget s (.ok none) t
  | halts {steps rest : Nat} {cause : ε} {t : σ} (hbudget : budget = steps + (rest + 1))
      (hpasses : catalog.Passes s steps t) (hpending : Machine.pending t = some cause) :
      Ends catalog budget s (.ok (some cause)) t
  | breaksOff {steps rest : Nat} {stop : Stop RunError} {last t : σ} (hbudget : budget = steps + (rest + 1))
      (hpasses : catalog.Passes s steps last) (hpending : Machine.pending last = none)
      (hstep : step catalog last = (.error stop, t)) : Ends catalog budget s (.error stop) t

theorem Catalog.Ends.next {answer : Except (Stop RunError) (Option ε)} (hpending : Machine.pending s = none)
    (hstep : step catalog s = (.ok (), t)) (hends : catalog.Ends budget t answer u) :
    catalog.Ends (budget + 1) s answer u := by
  cases hends with
  | usedUp hpasses => exact .usedUp (.next hpending hstep hpasses)
  | halts hbudget hpasses hhalt =>
    subst hbudget
    exact .halts (Nat.add_right_comm ..) (.next hpending hstep hpasses) hhalt
  | breaksOff hbudget hpasses hnone hstop =>
    subst hbudget
    exact .breaksOff (Nat.add_right_comm ..) (.next hpending hstep hpasses) hnone hstop

/-- Every run ends in one of these ways. -/
theorem Catalog.ends (catalog : Catalog ω ε) (budget : Nat) (s : σ) :
    catalog.Ends budget s (run catalog budget s).1 (run catalog budget s).2 := by
  induction budget generalizing s with
  | zero => exact .usedUp (.start s)
  | succ budget ih =>
    cases catalog.begins s with
    | halts hpending hrun =>
      rw [hrun]
      exact .halts (Nat.zero_add _).symm (.start s) hpending
    | goesOn hpending hstep hrun =>
      rw [hrun]
      exact .next hpending hstep (ih _)
    | breaksOff hpending hstep hrun =>
      rw [hrun]
      exact .breaksOff (Nat.zero_add _).symm (.start s) hpending hstep

theorem Catalog.Passes.run_eq (hpasses : catalog.Passes s n t) : run catalog n s = (.ok none, t) :=
  hpasses.run_add 0

/-- And where it ends in such a way, that is what it answers. -/
theorem Catalog.ends_iff {answer : Except (Stop RunError) (Option ε)} :
    run catalog budget s = (answer, t) ↔ catalog.Ends budget s answer t := by
  constructor
  · intro hrun
    have hends := catalog.ends budget s
    rwa [hrun] at hends
  · intro hends
    cases hends with
    | usedUp hpasses => exact hpasses.run_eq
    | halts hbudget hpasses hpending => rw [hbudget, hpasses.run_add, run_of_pending hpending]
    | breaksOff hbudget hpasses hpending hstep => rw [hbudget, hpasses.run_add, run_of_stop hpending hstep]

theorem Catalog.Passes.append (hfirst : catalog.Passes s n t) (hrest : catalog.Passes t m u) :
    catalog.Passes s (n + m) u := by
  induction hfirst with
  | start s => rwa [Nat.zero_add]
  | @next s t' u' k hpending hstep _ ih =>
    rw [Nat.add_right_comm]
    exact .next hpending hstep (ih hrest)

theorem Catalog.Passes.split (hpasses : catalog.Passes s (n + m) u) :
    ∃ t, catalog.Passes s n t ∧ catalog.Passes t m u := by
  induction n generalizing s with
  | zero =>
    rw [Nat.zero_add] at hpasses
    exact ⟨s, .start s, hpasses⟩
  | succ n ih =>
    rw [Nat.add_right_comm] at hpasses
    cases hpasses with
    | next hpending hstep hrest =>
      obtain ⟨t, hfirst, hlast⟩ := ih hrest
      exact ⟨t, .next hpending hstep hfirst, hlast⟩

/-- A run whose budget ends on the way uses it up. -/
theorem Catalog.Passes.run_of_le (hpasses : catalog.Passes s m u) (hle : n ≤ m) :
    (run catalog n s).1 = .ok none := by
  obtain ⟨k, rfl⟩ := Nat.exists_eq_add_of_le hle
  obtain ⟨t, hfirst, -⟩ := hpasses.split
  exact congrArg Prod.fst hfirst.run_eq

/-- After so many steps a run comes to a state in which it fetches a word. -/
structure Catalog.Reaches (catalog : Catalog ω ε) (s : σ) (steps : Nat) (last : σ) (pc : Bits)
    (word : BitVec 32) (fetched : σ) : Prop where
  passes : catalog.Passes s steps last
  pending : Machine.pending last = none
  fetch : (fetch : Action σ (Bits × BitVec 32)) last = (.ok (pc, word), fetched)

namespace Catalog.Reaches

variable {last fetched : σ} {pc : Bits} {word : BitVec 32} {rest : Nat}

theorem run_of_none (hreaches : catalog.Reaches s n last pc word fetched)
    (hdecode : catalog.decode word (Machine.extensions fetched) = none) :
    run catalog (n + (rest + 1)) s = (.error (.error (.undecodable pc word)), fetched) := by
  have hends : catalog.StepEnds last _ fetched := .undecodable hreaches.fetch hdecode
  rw [hreaches.passes.run_add, run_of_stop hreaches.pending hends.step_eq]

theorem run_of_some (hreaches : catalog.Reaches s n last pc word fetched) {decoded : Decoded ω}
    (hdecode : catalog.decode word (Machine.extensions fetched) = some decoded)
    (hexecute : (catalog.semantics decoded.opcode).execute ⟨decoded.operands, instructionBytes⟩ fetched =
      (.ok (), t)) : run catalog (n + (rest + 1)) s = run catalog rest t := by
  rw [hreaches.passes.run_add, run_of_step hreaches.pending (step_of_execute hreaches.fetch hdecode hexecute)]

end Catalog.Reaches

end RiscvSemantics
