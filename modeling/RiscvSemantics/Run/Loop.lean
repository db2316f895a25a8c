import RiscvSemantics.Run.Step

namespace RiscvSemantics

variable {σ ε ω κ : Type} [Machine σ ε]

/-- The part of a run that has `remaining` of `budget` steps left. Whether a cause is pending it
    learns by `poll`. -/
@[specialize] def runFrom (poll : StateM σ (Option ε)) (listen : Listener κ σ ω ε)
    (catalog : Catalog ω ε) (budget : Nat) :
    (remaining : Nat) → κ → σ → Except (Stop RunError) (Option ε) × κ × σ
  | 0, heard, state => (.ok none, listen heard state (.ranOut budget), state)
  | remaining + 1, heard, state =>
    match poll state with
    | (some cause, state) =>
      let done := budget - (remaining + 1)
      (.ok (some cause), listen heard state (.halted cause done budget), state)
    | (none, state) =>
      match stepWith listen catalog heard state with
      | (.ok (), heard, state) => runFrom poll listen catalog budget remaining heard state
      | (.error stop, heard, state) => (.error stop, heard, state)

/-- Executes up to `budget` instructions. Before each, the run halts if a cause is
    pending, and answers with it; what the last instruction raises stays pending.
    A run without budget reads nothing. -/
@[specialize] def runWith (listen : Listener κ σ ω ε) (catalog : Catalog ω ε) (budget : Nat)
    (heard : κ) (state : σ) : Except (Stop RunError) (Option ε) × κ × σ :=
  runFrom Machine.glance listen catalog budget budget heard state

/-- `runWith` with nobody listening. -/
def run (catalog : Catalog ω ε) (budget : Nat) : Interpretation σ RunError (Option ε) := fun state =>
  match runWith (fun _ _ _ => ()) catalog budget () state with
  | (answer, _, state) => (answer, state)

/-- `run` on a machine that changes when it is asked for its pending cause. -/
def runPolled {σ : Type} [PolledMachine σ ε] (catalog : Catalog ω ε) (budget : Nat) :
    Interpretation σ RunError (Option ε) := fun state =>
  match runFrom PolledMachine.poll (fun _ _ _ => ()) catalog budget budget () state with
  | (answer, _, state) => (answer, state)

end RiscvSemantics
