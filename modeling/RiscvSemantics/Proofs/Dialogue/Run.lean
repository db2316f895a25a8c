import RiscvSemantics.Proofs.Dialogue.Evaluation
import RiscvSemantics.Proofs.Machine.Interpretation
import RiscvSemantics.Run.Loop

namespace RiscvSemantics

variable {σ ε ω δ γ α β : Type}

open Interpretation

namespace Dialogue

def extensions : Dialogue ε δ Extensions :=
  look fun extensions _ => pure extensions

def pending : Dialogue ε δ (Option ε) :=
  look fun _ cause? => pure cause?

/-- The same dialogue with its errors reported in another form. -/
def mapError (f : δ → γ) : Dialogue ε δ α → Dialogue ε γ α
  | done answer => done (answer.mapError (Stop.map f))
  | look next => look fun extensions cause? => (next extensions cause?).mapError f
  | ask q next => ask q fun value => (next value).mapError f
  | make c next => make c (next.mapError f)

end Dialogue

section Dialogues

open Dialogue

def fetchByteDialogue (pc : Bits) (offset : Nat) : Dialogue ε δ (BitVec 8) := do
  let cell ← query (.memory (pc.advance offset))
  pure (cell.value.setWidth 8)

/-- The dialogue of a fetch: the program counter is asked first, then the four bytes from
    there on. -/
def fetchDialogue : Dialogue ε δ (Bits × BitVec 32) := do
  let pc ← query .pc
  let b0 ← fetchByteDialogue pc 0
  let b1 ← fetchByteDialogue pc 1
  let b2 ← fetchByteDialogue pc 2
  let b3 ← fetchByteDialogue pc 3
  pure (pc, b3 ++ b2 ++ b1 ++ b0)

/-- The dialogue of what follows once a word has been fetched. -/
def Catalog.executeDialogue (catalog : Catalog ω ε) (xlen : Nat) (hxlen : xlen ≤ 64) (pc : Bits)
    (word : BitVec 32) (extensions : Extensions) : Dialogue ε RunError Unit :=
  match catalog.decode word extensions with
  | none => checked (.error (.undecodable pc word))
  | some decoded =>
    (Statement.dialogueAll ⟨decoded.operands, instructionBytes⟩ xlen hxlen
      (catalog.semantics decoded.opcode).statements).mapError (.contract pc)

/-- The dialogue of a step with a machine whose registers are `xlen` bits wide. -/
def Catalog.stepDialogue (catalog : Catalog ω ε) (xlen : Nat) (hxlen : xlen ≤ 64) :
    Dialogue ε RunError Unit := do
  let (pc, word) ← fetchDialogue
  let extensions ← extensions
  catalog.executeDialogue xlen hxlen pc word extensions

/-- The dialogue of a run. Before each step it looks for a pending cause. -/
def Catalog.runDialogue (catalog : Catalog ω ε) (xlen : Nat) (hxlen : xlen ≤ 64) :
    (budget : Nat) → Dialogue ε RunError (Option ε)
  | 0 => pure none
  | budget + 1 => do
    match ← pending with
    | some cause => pure (some cause)
    | none =>
      catalog.stepDialogue xlen hxlen
      runDialogue catalog xlen hxlen budget

end Dialogues

section Run

variable [Machine σ ε]

theorem Dialogue.run_mapError (d : Dialogue ε δ α) (f : δ → γ) (s : σ) :
    ((d.mapError f).run : Interpretation σ γ α) s =
      (((d.run : Interpretation σ δ α) s).1.mapError (Stop.map f), (d.run s).2) := by
  induction d generalizing s with
  | done answer => rfl
  | look next ih => exact ih _ _ s
  | ask q next ih =>
    cases hask : (q.ask : Action σ Bits) s with
    | mk answer s' =>
      cases answer with
      | ok value =>
        rw [mapError, run_ask hask, run_ask hask]
        exact ih value s'
      | error fault =>
        rw [mapError, run_ask_fault hask, run_ask_fault hask]
        rfl
  | make c next ih =>
    cases hmake : (c.make : Action σ Unit) s with
    | mk answer s' =>
      cases answer with
      | ok u =>
        rw [mapError, run_make hmake, run_make hmake]
        exact ih s'
      | error fault =>
        rw [mapError, run_make_fault hmake, run_make_fault hmake]
        rfl

theorem act_fetchByte_eq_run (pc : Bits) (offset : Nat) :
    (act (fetchByte pc offset) : Interpretation σ δ (BitVec 8)) = (fetchByteDialogue pc offset).run := by
  simp only [fetchByte, fetchByteDialogue, act_bind, Dialogue.run_bind, Dialogue.run_query, Query.ask]
  rfl

/-- A fetch is its dialogue held with the machine. -/
theorem act_fetch_eq_run :
    (act fetch : Interpretation σ δ (Bits × BitVec 32)) = fetchDialogue.run := by
  simp only [fetch, fetchDialogue, act_bind, act_fetchByte_eq_run, Dialogue.run_bind, Dialogue.run_query,
    Query.ask]
  rfl

/-- A step is its dialogue held with the machine. -/
theorem step_eq_run (catalog : Catalog ω ε) :
    (step catalog : Interpretation σ RunError Unit) =
      (catalog.stepDialogue (Machine.xlen σ) Machine.xlen_le).run := by
  funext s
  rw [Catalog.stepDialogue, Dialogue.run_bind, ← act_fetch_eq_run]
  cases hfetch : (fetch : Action σ (Bits × BitVec 32)) s with
  | mk answer s' =>
    cases answer with
    | error fault =>
      rw [bind_of_error (act_of_error hfetch)]
      simp only [step, stepWith, hfetch]
    | ok fetched =>
      obtain ⟨pc, word⟩ := fetched
      rw [bind_of_ok (act_of_ok hfetch)]
      change _ =
        (catalog.executeDialogue (Machine.xlen σ) Machine.xlen_le pc word (Machine.extensions s')).run s'
      simp only [step, stepWith, hfetch, Catalog.executeDialogue]
      cases catalog.decode word (Machine.extensions s') with
      | none => rfl
      | some decoded =>
        simp only [Dialogue.run_mapError, ← Statement.executeAll_eq_run]
        rfl

theorem runDialogue_succ (catalog : Catalog ω ε) (budget : Nat) (s : σ) :
    (catalog.runDialogue (Machine.xlen σ) Machine.xlen_le (budget + 1)).run s =
      match Machine.pending s with
      | some cause => (.ok (some cause), s)
      | none => (step catalog >>= fun _ =>
          (catalog.runDialogue (Machine.xlen σ) Machine.xlen_le budget).run) s := by
  change Dialogue.run (match Machine.pending s with
    | some cause => pure (some cause)
    | none => (catalog.stepDialogue (Machine.xlen σ) Machine.xlen_le) >>= fun _ =>
        catalog.runDialogue (Machine.xlen σ) Machine.xlen_le budget) s = _
  cases Machine.pending s with
  | some cause => rfl
  | none => rw [Dialogue.run_bind, step_eq_run]

theorem runFrom_eq_run (catalog : Catalog ω ε) (budget remaining : Nat) (s : σ) :
    runFrom Machine.glance (fun _ _ _ => ()) catalog budget remaining () s =
      (((catalog.runDialogue (Machine.xlen σ) Machine.xlen_le remaining).run s).1, (),
        ((catalog.runDialogue (Machine.xlen σ) Machine.xlen_le remaining).run s).2) := by
  induction remaining generalizing s with
  | zero => rfl
  | succ remaining ih =>
    have hstep : stepWith (fun _ _ _ => ()) catalog () s = ((step catalog s).1, (), (step catalog s).2) := rfl
    rw [runFrom, Machine.glance, runDialogue_succ]
    cases Machine.pending s with
    | some cause => rfl
    | none =>
      simp only [hstep]
      cases hresult : step catalog s with
      | mk answer s' =>
        cases answer with
        | ok u =>
          rw [bind_of_ok hresult]
          exact ih s'
        | error stop =>
          rw [bind_of_error hresult]

/-- A run is its dialogue held with the machine. -/
theorem run_eq_run (catalog : Catalog ω ε) (budget : Nat) :
    (run catalog budget : Interpretation σ RunError (Option ε)) =
      (catalog.runDialogue (Machine.xlen σ) Machine.xlen_le budget).run := by
  funext s
  rw [run, runWith, runFrom_eq_run]
  rfl

end Run

end RiscvSemantics
