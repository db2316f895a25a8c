import RiscvSemantics.Proofs.Dialogue.Switched
import RiscvSemantics.Proofs.Run.Ending

namespace RiscvSemantics

variable {σ ω ε : Type} [Machine σ ε] {catalog : Catalog ω ε} {f : σ → σ} {small large : Extensions} {s t : σ}
  {budget n : Nat}

/-- What is an instruction under the extensions `small` is the same instruction under `large`. -/
def Catalog.Grows (catalog : Catalog ω ε) (small large : Extensions) : Prop :=
  ∀ word decoded, catalog.decode word small = some decoded → catalog.decode word large = some decoded

namespace Machine.Switches

/-- A step that is done is done alike on the switched machine. -/
theorem step_of_ok (hf : Machine.Switches f large) (hgrows : catalog.Grows (Machine.extensions s) large)
    (hstep : step catalog s = (.ok (), t)) :
    step catalog (f s) = (.ok (), f t) ∧ Machine.extensions t = Machine.extensions s := by
  obtain ⟨pc, word, fetched, decoded, hfetch, hdecode, hexecute⟩ := exists_of_step_ok hstep
  obtain ⟨hfetchf, hfetched⟩ := hf.fetch_of_ok hfetch
  obtain ⟨hexecutef, hexecuted⟩ :=
    hf.execute_eq (catalog.semantics decoded.opcode) ⟨decoded.operands, instructionBytes⟩ fetched
  rw [hexecute] at hexecutef hexecuted
  rw [hfetched] at hdecode
  have hdecodef : catalog.decode word (Machine.extensions (f fetched)) = some decoded := by
    rw [hf.extensions]
    exact hgrows word decoded hdecode
  exact ⟨step_of_execute hfetchf hdecodef hexecutef, hexecuted.trans hfetched⟩

/-- So are steps in a row. -/
theorem passes (hf : Machine.Switches f large) (hgrows : catalog.Grows (Machine.extensions s) large)
    (hpasses : catalog.Passes s n t) :
    catalog.Passes (f s) n (f t) ∧ Machine.extensions t = Machine.extensions s := by
  induction hpasses with
  | start s => exact ⟨.start (f s), rfl⟩
  | @next s t u k hpending hstep _ ih =>
    obtain ⟨hstepf, hextensions⟩ := hf.step_of_ok hgrows hstep
    rw [hextensions] at ih
    obtain ⟨hrest, hkept⟩ := ih hgrows
    exact ⟨.next ((hf.pending s).trans hpending) hstepf hrest, hkept⟩

/-- A run that does not break off goes alike on the switched machine. -/
theorem run_of_ok (hf : Machine.Switches f large) (hgrows : catalog.Grows (Machine.extensions s) large)
    {halt : Option ε} (hrun : run catalog budget s = (.ok halt, t)) :
    run catalog budget (f s) = (.ok halt, f t) := by
  rw [Catalog.ends_iff] at hrun ⊢
  cases hrun with
  | usedUp hpasses => exact .usedUp (hf.passes hgrows hpasses).1
  | halts hbudget hpasses hpending =>
    exact .halts hbudget (hf.passes hgrows hpasses).1 ((hf.pending t).trans hpending)

end Machine.Switches

/-- A run that comes to a word that is no instruction comes to it alike on the switched machine. -/
theorem Machine.Switches.exists_reaches (hf : Machine.Switches f large)
    (hgrows : catalog.Grows (Machine.extensions s) large) {pc : Bits} {word : BitVec 32}
    (hrun : run catalog budget s = (.error (.error (.undecodable pc word)), t)) :
    catalog.decode word (Machine.extensions s) = none ∧
      ∃ steps rest last, budget = steps + (rest + 1) ∧ catalog.Reaches s steps last pc word t ∧
        catalog.Reaches (f s) steps (f last) pc word (f t) := by
  rw [Catalog.ends_iff] at hrun
  cases hrun with
  | @breaksOff steps rest _ last _ hbudget hpasses hpending hstep =>
    obtain ⟨hpassesf, hkept⟩ := hf.passes hgrows hpasses
    obtain ⟨hfetch, hdecode⟩ := fetch_of_undecodable hstep
    obtain ⟨hfetchf, hfetched⟩ := hf.fetch_of_ok hfetch
    have hpendingf : Machine.pending (f last) = none := (hf.pending last).trans hpending
    rw [hfetched, hkept] at hdecode
    exact ⟨hdecode, steps, rest, last, hbudget, ⟨hpasses, hpending, hfetch⟩, hpassesf, hpendingf, hfetchf⟩

end RiscvSemantics
