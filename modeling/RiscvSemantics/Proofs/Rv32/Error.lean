import RiscvSemantics.Proofs.Hart.Fetch
import RiscvSemantics.Proofs.Run.Ending
import RiscvSemantics.Proofs.Rv32.Contract
import RiscvSemantics.Proofs.Rv32.Evaluation

namespace RiscvSemantics.Rv32

variable {hart last after : Hart .rv32} {stop : Stop RunError}

/-- What a run reports when it breaks off, and the hart that it leaves. The word at the program
    counter is no instruction, so nothing has been executed. A fault is pending if one of the bytes of
    the word lies beyond the memory, and nothing else is: it is not the fault that is reported. -/
structure BreaksOff (stop : Stop RunError) (after : Hart .rv32) : Prop where
  word : ∃ w, stop = .error (.undecodable (Rv32.word after.pc) w) ∧ decode w after.extensions = none ∧
    ∀ k < 4, w.toNat / 256 ^ k % 256 = (view after).byte ((after.pc.toNat + k) % 2 ^ 32)
  trap : after.trap = if (view after).Overruns after.pc.toNat 4 then some .loadFault else none

/-- An error leaves nothing pending exactly where the whole word lies in the memory. -/
theorem BreaksOff.trap_eq_none_iff (h : BreaksOff stop after) :
    after.trap = none ↔ ∀ k < 4, (after.pc.toNat + k) % 2 ^ 32 < after.ram.size := by
  have hinside : ¬(view after).Overruns after.pc.toNat 4 ↔
      ∀ k < 4, (after.pc.toNat + k) % 2 ^ 32 < after.ram.size := Hart.View.not_overruns_iff
  rw [h.trap, ← hinside]
  split
  · next hoverruns => exact ⟨nofun, fun hnot => absurd hoverruns hnot⟩
  · next hnot => exact ⟨fun _ => hnot, fun _ => rfl⟩

/-- A step breaks off at what it has fetched. -/
theorem BreaksOff.of_step (hpending : last.trap = none) (hstep : step catalog last = (.error stop, after)) :
    BreaksOff stop after := by
  obtain ⟨w, hfetch, hbytes⟩ := last.exists_fetch
  generalize htrap : (last.view.raiseIf (last.view.Overruns last.pc.toNat 4) .loadFault).trap = trap at hfetch
  cases hdecode : decode w last.extensions with
  | some decoded =>
    obtain ⟨executed, hexecute, _⟩ :=
      (Hart.serves .rv32).execute_of_decode catalog_sound hdecode (s := { last with trap }) trivial
    rw [step_of_execute hfetch hdecode hexecute] at hstep
    cases hstep
  | none =>
    have hends : catalog.StepEnds last _ { last with trap } := .undecodable hfetch hdecode
    rw [hends.step_eq] at hstep
    cases hstep
    refine ⟨⟨w, rfl, hdecode, hbytes⟩, ?_⟩
    have hraised : (last.view.raiseIf (last.view.Overruns last.pc.toNat 4) .loadFault).trap =
        if last.view.Overruns last.pc.toNat 4 then last.trap.or (some .loadFault) else last.trap := rfl
    rw [hpending] at hraised
    exact htrap.symm.trans hraised

/-- When a run tells what has been raised. If it breaks off it reports a word that it has fetched and
    that is no instruction, and a fault of that fetch stays untold; so nothing is pending then exactly
    if the whole word lies in the memory. What an instruction raises that is executed is told, provided
    that the budget goes on by one step. -/
theorem run_reports (hart : Hart .rv32) :
    (∀ {budget : Nat} {stop : Stop RunError} {after : Hart .rv32},
        run catalog budget hart = (.error stop, after) →
          BreaksOff stop after ∧
            (after.trap = none ↔ ∀ k < 4, (after.pc.toNat + k) % 2 ^ 32 < after.ram.size)) ∧
      ∀ {steps : Nat} {last executed : Hart .rv32} {cause : Cause}, catalog.Passes hart steps last →
        last.trap = none → step catalog last = (.ok (), executed) → executed.trap = some cause →
          ∀ rest, run catalog (steps + (rest + 2)) hart = (.ok (some cause), executed) := by
  refine ⟨?_, ?_⟩
  · intro budget stop after hrun
    rw [Catalog.ends_iff] at hrun
    cases hrun with
    | breaksOff _ _ hpending hstep =>
      have hbreaks := BreaksOff.of_step hpending hstep
      exact ⟨hbreaks, hbreaks.trap_eq_none_iff⟩
  · intro steps last executed cause hpasses hpending hstep htrap rest
    rw [hpasses.run_add, run_of_step hpending hstep]
    exact run_of_pending htrap

/-- A memory of zeros holds no instruction; nothing is pending when a run breaks off there.
    `lw x5, 14(x0)` reads beyond a memory of eight bytes, which the next step reports. -/
theorem run_reports_in_memory :
    let zeros := Hart.new .rv32 8 Extensions.none
    let loading : Hart .rv32 :=
      ⟨Vector.replicate 32 0#32, ⟨#[0x83, 0x22, 0xe0, 0x00, 0, 0, 0, 0]⟩, Extensions.none, none⟩
    (∃ stop after, run catalog 1 zeros = (.error stop, after) ∧ after.trap = none) ∧
      ∃ executed, run catalog 2 loading = (.ok (some .loadFault), executed) := by
  intro zeros loading
  constructor
  · have hword : RunError.undecodable? (run catalog 1 zeros).1 = some (word 0#32, 0#32) := by decide +kernel
    have hinside : ∀ k < 4,
        ((run catalog 1 zeros).2.pc.toNat + k) % 2 ^ 32 < (run catalog 1 zeros).2.ram.size := by decide +kernel
    have hrun := RunError.eq_of_undecodable? hword
    obtain ⟨herrors, -⟩ := run_reports zeros
    obtain ⟨-, hiff⟩ := herrors hrun
    exact ⟨_, _, hrun, hiff.mpr hinside⟩
  · have hanswer : (step catalog loading).1.toOption = some () := by decide +kernel
    have htrap : (step catalog loading).2.trap = some .loadFault := by decide +kernel
    cases hstep : step catalog loading with
    | mk answer executed =>
      rw [hstep] at hanswer htrap
      cases answer with
      | error stop => cases hanswer
      | ok u =>
        obtain ⟨-, hreports⟩ := run_reports loading
        exact ⟨executed, hreports (.start loading) rfl hstep htrap 0⟩

/-- Beyond the memory there is no instruction either. A run that gets there reports that, although a
    fault is pending. -/
theorem fetch_fault_untold :
    let hart := (Hart.new .rv32 16 Extensions.none).putPc 16
    hart.trap = none ∧
      run catalog 2 hart =
        (.error (.error (.undecodable (word 16#32) 0#32)), (run catalog 2 hart).2) ∧
      (run catalog 2 hart).2.trap = some .loadFault := by
  intro hart
  have hword : RunError.undecodable? (run catalog 2 hart).1 = some (word 16#32, 0#32) := by decide +kernel
  exact ⟨rfl, RunError.eq_of_undecodable? hword, by decide +kernel⟩

end RiscvSemantics.Rv32
