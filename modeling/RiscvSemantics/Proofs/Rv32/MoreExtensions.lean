import RiscvSemantics.Proofs.Run.Switched
import RiscvSemantics.Proofs.Rv32.Contract
import RiscvSemantics.Proofs.Rv32.Layout

namespace RiscvSemantics

/-- Every extension that is on in `small` is on in `large`. -/
structure Extensions.Included (small large : Extensions) : Prop where
  m : small.m = true → large.m = true
  a : small.a = true → large.a = true
  f : small.f = true → large.f = true
  d : small.d = true → large.d = true
  c : small.c = true → large.c = true

namespace Rv32

variable {small large : Extensions}

/-- More extensions leave every instruction what it is. -/
theorem catalog_grows (hincluded : small.Included large) : catalog.Grows small large := by
  intro word decoded hdecode
  obtain ⟨henabled, hrecognizes, hoperands⟩ := decode_eq_some_iff.mp hdecode
  refine decode_eq_some_iff.mpr ⟨?_, hrecognizes, hoperands⟩
  rw [Opcode.isEnabled_iff] at henabled ⊢
  exact fun hmultiplication => hincluded.m (henabled hmultiplication)

/-- What extensions can make an instruction of a word is a multiplication or division. -/
theorem isMultiplication_of_gained {word : Word} {decoded : Decoded Opcode} (hnone : decode word small = none)
    (hsome : decode word large = some decoded) : decoded.opcode.isMultiplication = true := by
  refine Decidable.byContradiction fun hbase => ?_
  obtain ⟨_, hrecognizes, hoperands⟩ := decode_eq_some_iff.mp hsome
  have henabled : decoded.opcode.isEnabled small = true :=
    (decoded.opcode.isEnabled_iff small).mpr fun hmultiplication => absurd hmultiplication hbase
  have hdecode := decode_eq_some_iff.mpr ⟨henabled, hrecognizes, hoperands⟩
  rw [hnone] at hdecode
  cases hdecode

/-- What becomes of a run of that budget from `s` when `f` has switched the machine to more
    extensions before. A run that does not break off stays as it is. One that does has come to a word
    that is no instruction. If the word is none under the extensions `more` either, all stays as it
    is. Else it is a multiplication or division there: the run goes through the same states up to the
    fetch of it, executes it, and goes on from where that leads. -/
structure Prolongs {σ : Type} [Machine σ Cause] (f : σ → σ) (more : Extensions) (budget : Nat) (s : σ) :
    Prop where
  finishes : ∀ {halt t}, run catalog budget s = (.ok halt, t) → run catalog budget (f s) = (.ok halt, f t)
  breaksOff : ∀ {stop t}, run catalog budget s = (.error stop, t) → RunError.Undecodable stop
  stays : ∀ {pc word t}, run catalog budget s = (.error (.error (.undecodable pc word)), t) →
    decode word more = none → run catalog budget (f s) = (.error (.error (.undecodable pc word)), f t)
  goesOn : ∀ {pc word t decoded}, run catalog budget s = (.error (.error (.undecodable pc word)), t) →
    decode word more = some decoded →
      decoded.opcode.isMultiplication = true ∧
        ∃ steps rest last after, budget = steps + (rest + 1) ∧ catalog.Reaches s steps last pc word t ∧
          catalog.Reaches (f s) steps (f last) pc word (f t) ∧
          decoded.opcode.semantics.execute ⟨decoded.operands, instructionBytes⟩ (f t) = (.ok (), after) ∧
          run catalog budget (f s) = run catalog rest after

theorem prolongs {σ : Type} [Machine σ Cause] {f : σ → σ} (hxlen : Machine.xlen σ = 32)
    (hserves : Machine.Serves (fun _ : σ => True) widths) (hf : Machine.Switches f large) (budget : Nat) {s : σ}
    (hincluded : (Machine.extensions s).Included large) : Prolongs f large budget s := by
  have hgrows := catalog_grows hincluded
  have hsound : catalog.Sound (Machine.xlen σ) widths := hxlen ▸ catalog_sound
  refine ⟨hf.run_of_ok hgrows, fun {stop t} hrun => ?_, fun {pc word t} hrun hdecode => ?_,
    fun {pc word t decoded} hrun hdecode => ?_⟩
  · obtain ⟨answer, _, _, hruns, _, hanswer⟩ :=
      hserves.runFrom_sound hxlen.symm hsound (fun _ _ _ => ()) budget budget () trivial
    rw [run, runWith, hruns] at hrun
    cases hrun
    exact hanswer stop rfl
  · obtain ⟨_, steps, rest, last, hbudget, _, hreaches⟩ := hf.exists_reaches hgrows hrun
    rw [← hf.extensions t] at hdecode
    rw [hbudget, hreaches.run_of_none hdecode]
  · obtain ⟨hnone, steps, rest, last, hbudget, hbefore, hreaches⟩ := hf.exists_reaches hgrows hrun
    have hmultiplication := isMultiplication_of_gained hnone hdecode
    obtain ⟨after, hexecute, _⟩ := hserves.execute_of_decode hsound hdecode (s := f t) trivial
    rw [← hf.extensions t] at hdecode
    have hruns : run catalog budget (f s) = run catalog rest after := by
      rw [hbudget, hreaches.run_of_some hdecode hexecute]
    rw [catalog_semantics] at hexecute
    exact ⟨hmultiplication, steps, rest, last, after, hbudget, hbefore, hreaches, hexecute, hruns⟩

/-- More extensions only ever prolong a run, on every hart. So they do on a hart with a record, where
    the accesses are the same up to there. -/
theorem more_extensions_prolong {hart : Hart .rv32} {more : Extensions}
    (hincluded : hart.extensions.Included more) (budget : Nat) :
    Prolongs (fun hart => hart.setExtensions more) more budget hart ∧
      ∀ record : Array (Access Cause),
        Prolongs (Recorded.switch fun hart => hart.setExtensions more) more budget ⟨hart, record⟩ := by
  have hswitches := Hart.switches .rv32 more
  refine ⟨prolongs rfl (Hart.serves .rv32) hswitches budget hincluded, fun record => ?_⟩
  exact prolongs rfl (Recorded.serves (Hart.serves .rv32)) (Recorded.switches hswitches) budget hincluded

/-- `mul x2, x1, x1` is met after `addi x1, x0, 6`. Without extensions the run breaks off there; with
    multiplication it goes on, and register 2 becomes 36. -/
theorem multiplication_prolongs :
    let program : ByteArray := ⟨#[0x93, 0x00, 0x60, 0x00, 0x33, 0x81, 0x10, 0x02]⟩
    let hart : Hart .rv32 := ⟨Vector.replicate 32 0#32, program, Extensions.none, none⟩
    let more : Extensions := ⟨true, false, false, false, false⟩
    hart.extensions.Included more ∧ Prolongs (fun hart => hart.setExtensions more) more 2 hart ∧
      RunError.undecodable? (run catalog 2 hart).1 = some (⟨32, 4#32, by decide⟩, 0x02108133#32) ∧
      decode 0x02108133#32 more = some ⟨.mul, Word.operands 0x02108133#32 .R⟩ ∧
      ((run catalog 2 (hart.setExtensions more)).2.register 2).toNat = 36 := by
  intro program hart more
  have hincluded : hart.extensions.Included more := ⟨nofun, nofun, nofun, nofun, nofun⟩
  obtain ⟨hprolongs, -⟩ := more_extensions_prolong hincluded 2
  exact ⟨hincluded, hprolongs, by decide +kernel, by decide, by decide +kernel⟩

end Rv32

end RiscvSemantics
