import RiscvSemantics.Proofs.Widths.Determined
import RiscvSemantics.Run.Loop

namespace RiscvSemantics

variable {σ ε ω κ : Type}

/-- The formulas of a catalog fit what it decodes, for machines of that register width
    that answer at those widths. -/
def Catalog.Sound (catalog : Catalog ω ε) (xlen : Nat) (widths : Machine.Widths) : Prop :=
  ∀ word extensions decoded, catalog.decode word extensions = some decoded →
    Statement.firstViolation (Instruction.frame ⟨decoded.operands, instructionBytes⟩ xlen widths)
      (catalog.semantics decoded.opcode).statements = none

/-- The run broke off since a word was no instruction. -/
def RunError.Undecodable (stop : Stop RunError) : Prop :=
  ∃ pc word, stop = .error (.undecodable pc word)

variable [Machine σ ε] {valid : σ → Prop} {widths : Machine.Widths} {catalog : Catalog ω ε} {s : σ}

namespace Machine.Serves

open Interpretation

theorem fetchByte_ok (hserves : Machine.Serves valid widths) {pc : Bits}
    (hpc : pc.width = Machine.xlen σ) (offset : Nat) (hvalid : valid s) :
    ∃ byte s', (fetchByte pc offset : Action σ (BitVec 8)) s = (.ok byte, s') ∧ valid s' := by
  have hfits : (Query.memory (pc.advance offset)).Fits (Machine.xlen σ) := hpc
  obtain ⟨cell, s', hask, _, hvalid'⟩ := hserves.ask hvalid hfits
  exact ⟨_, s', bind_of_ok hask _, hvalid'⟩

theorem fetch_ok (hserves : Machine.Serves valid widths) (hwidth : widths.pc = Machine.xlen σ)
    (hvalid : valid s) :
    ∃ pc word s', (fetch : Action σ (Bits × BitVec 32)) s = (.ok (pc, word), s') ∧ valid s' := by
  obtain ⟨pc, s₁, hask, hpc, hvalid₁⟩ := hserves.ask (q := .pc) hvalid trivial
  have hpc : pc.width = Machine.xlen σ := hpc.trans hwidth
  obtain ⟨b0, s₂, h0, hvalid₂⟩ := hserves.fetchByte_ok hpc 0 hvalid₁
  obtain ⟨b1, s₃, h1, hvalid₃⟩ := hserves.fetchByte_ok hpc 1 hvalid₂
  obtain ⟨b2, s₄, h2, hvalid₄⟩ := hserves.fetchByte_ok hpc 2 hvalid₃
  obtain ⟨b3, s₅, h3, hvalid₅⟩ := hserves.fetchByte_ok hpc 3 hvalid₄
  refine ⟨pc, b3 ++ b2 ++ b1 ++ b0, s₅, ?_, hvalid₅⟩
  have hget : (Machine.getPc : Action σ Bits) s = (.ok pc, s₁) := hask
  rw [fetch, bind_of_ok hget, bind_of_ok h0, bind_of_ok h1,
    bind_of_ok h2, bind_of_ok h3]
  rfl

/-- Whatever a sound catalog decodes is executed. -/
theorem execute_of_decode (hserves : Machine.Serves valid widths)
    (hsound : catalog.Sound (Machine.xlen σ) widths) {word : BitVec 32} {extensions : Extensions}
    {decoded : Decoded ω} (hdecode : catalog.decode word extensions = some decoded) (hvalid : valid s) :
    ∃ s', (catalog.semantics decoded.opcode).execute ⟨decoded.operands, instructionBytes⟩ s = (.ok (), s') ∧
      valid s' := by
  have hforeseen := Formula.execute_foreseen hserves ⟨decoded.operands, instructionBytes⟩
    (catalog.semantics decoded.opcode).statements hvalid
  rwa [hsound word extensions decoded hdecode] at hforeseen

/-- A step with a sound catalog is done, or meets a word that is no instruction. -/
theorem stepWith_sound (hserves : Machine.Serves valid widths) (hwidth : widths.pc = Machine.xlen σ)
    (hsound : catalog.Sound (Machine.xlen σ) widths) (listen : Listener κ σ ω ε) (heard : κ)
    (hvalid : valid s) :
    ∃ answer heard' s', stepWith listen catalog heard s = (answer, heard', s') ∧
      valid s' ∧ ∀ stop, answer = .error stop → RunError.Undecodable stop := by
  obtain ⟨pc, word, s₁, hfetch, hvalid₁⟩ := hserves.fetch_ok hwidth hvalid
  simp only [stepWith, hfetch]
  cases hdecode : catalog.decode word (Machine.extensions s₁) with
  | none =>
    refine ⟨_, _, s₁, rfl, hvalid₁, fun stop hstop => ?_⟩
    obtain rfl := Except.error.inj hstop
    exact ⟨pc, word, rfl⟩
  | some decoded =>
    obtain ⟨s₂, hexecute, hvalid₂⟩ := hserves.execute_of_decode hsound hdecode hvalid₁
    simp only [hexecute]
    exact ⟨_, _, s₂, rfl, hvalid₂, fun stop hstop => by cases hstop⟩

/-- A run with a sound catalog goes on to its end, or to a word that is no
    instruction. -/
theorem runFrom_sound (hserves : Machine.Serves valid widths) (hwidth : widths.pc = Machine.xlen σ)
    (hsound : catalog.Sound (Machine.xlen σ) widths) (listen : Listener κ σ ω ε)
    (budget remaining : Nat) (heard : κ) (hvalid : valid s) :
    ∃ answer heard' s', runFrom Machine.glance listen catalog budget remaining heard s =
      (answer, heard', s') ∧ valid s' ∧ ∀ stop, answer = .error stop → RunError.Undecodable stop := by
  induction remaining generalizing heard s with
  | zero => exact ⟨_, _, s, rfl, hvalid, fun stop hstop => by cases hstop⟩
  | succ remaining ih =>
    rw [runFrom, Machine.glance]
    cases Machine.pending s with
    | some cause => exact ⟨_, _, s, rfl, hvalid, fun stop hstop => by cases hstop⟩
    | none =>
      obtain ⟨answer, heard', s', hstep, hvalid', hanswer⟩ :=
        hserves.stepWith_sound hwidth hsound listen heard hvalid
      simp only [hstep]
      cases answer with
      | ok u => exact ih heard' hvalid'
      | error stop =>
        refine ⟨_, _, s', rfl, hvalid', fun stop' hstop' => ?_⟩
        obtain rfl := Except.error.inj hstop'
        exact hanswer stop rfl

end Machine.Serves

end RiscvSemantics
