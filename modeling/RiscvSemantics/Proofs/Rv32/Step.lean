import RiscvSemantics.Proofs.Hart.Number
import RiscvSemantics.Proofs.Run.Ending
import RiscvSemantics.Proofs.Rv32.Computation
import RiscvSemantics.Proofs.Rv32.Layout
import RiscvSemantics.Proofs.Rv32.Transfer

namespace RiscvSemantics.Rv32

variable {hart : Hart .rv32} {w : Word} {opcode : Opcode}

/-- The next instruction is that opcode in that word: the word lies in the memory, at the program
    counter, it is decoded, and no trap is in the way. -/
structure Next (hart : Hart .rv32) (w : Word) (opcode : Opcode) : Prop where
  trap : hart.trap = none
  held : (view hart).Holds hart.pc.toNat 4 w.toNat
  recognizes : opcode.Recognizes w.toNat
  enabled : opcode.isEnabled hart.extensions = true

namespace Next

/-- A step executes it. -/
theorem step_eq (h : Next hart w opcode) {after : Hart .rv32}
    (hexecute : opcode.semantics.execute (w.instruction opcode.format) hart = (.ok (), after)) :
    step catalog hart = (.ok (), after) := by
  have hdecode : decode w hart.extensions = some ⟨opcode, w.operands opcode.format⟩ :=
    decode_eq_some_iff.mpr ⟨h.enabled, h.recognizes, rfl⟩
  rw [← catalog_semantics] at hexecute
  exact step_of_execute (Hart.fetch_of_holds h.held) hdecode hexecute

theorem passes (h : Next hart w opcode) {after : Hart .rv32} (hstep : step catalog hart = (.ok (), after)) :
    catalog.Passes hart 1 after :=
  .next h.trap hstep (.start after)

theorem exists_computes (h : Next hart w opcode) (hcomputation : opcode ∈ computations) :
    ∃ after, catalog.Passes hart 1 after ∧ Computes w opcode (view hart) (view after) := by
  obtain ⟨value, hsemantics, hvalue⟩ := semantics_computation w hart hcomputation
  obtain ⟨after, hexecute, hafter⟩ := execute_compute (operand_rd w hcomputation) hvalue
  rw [← hsemantics] at hexecute
  exact ⟨after, h.passes (h.step_eq hexecute), hafter⟩

theorem exists_branches (h : Next hart w opcode) (hbranch : opcode ∈ branches) :
    ∃ after, catalog.Passes hart 1 after ∧ Transfers w opcode (view hart) (view after) := by
  have hformat : ∀ opcode ∈ branches, opcode.format = .B := by decide
  obtain ⟨after, hexecute, htransfers⟩ := Transfers.branch hbranch w hart
  rw [← hformat opcode hbranch] at hexecute
  exact ⟨after, h.passes (h.step_eq hexecute), htransfers⟩

theorem exists_jumps (h : Next hart w .jal) :
    ∃ after, catalog.Passes hart 1 after ∧ Transfers w .jal (view hart) (view after) := by
  obtain ⟨after, hexecute, htransfers⟩ := Transfers.jump w hart
  exact ⟨after, h.passes (h.step_eq hexecute), htransfers⟩

end Next

end RiscvSemantics.Rv32
