import RiscvSemantics.Machine.Recorded
import RiscvSemantics.Proofs.Dialogue.Basic

namespace RiscvSemantics

variable {σ ε α : Type}

/-- The entry that a question leaves in a record once it is answered. -/
def Query.access (q : Query) (value : Bits) : Access ε :=
  match q with
  | .pc => .getPc value
  | .register id => .getRegister id value
  | .memory address => .getMemory address value

/-- The entry that a change leaves in a record. -/
def Change.access : Change ε → Access ε
  | .pc value => .setPc value
  | .register id value => .setRegister id value
  | .memory address value => .setMemory address value
  | .raise cause => .raise cause

namespace Recorded

theorem unrecorded_then_note {action : Action σ Bits} {s s' : σ} {value : Bits}
    (haction : action s = (.ok value, s')) (entry : Bits → Access ε) (record : Array (Access ε)) :
    (do
      let value ← unrecorded action
      note (entry value)
      pure value : Action (Recorded σ ε) Bits) ⟨s, record⟩ =
        (.ok value, ⟨s', record.push (entry value)⟩) := by
  have hrun : (unrecorded action : Action (Recorded σ ε) Bits) ⟨s, record⟩ =
      (.ok value, ⟨s', record⟩) := by
    simp only [unrecorded, haction]
  simp only [bind, ExceptT.bind, ExceptT.mk, StateT.bind, hrun]
  rfl

/-- A read that the machine breaks off leaves no entry. -/
theorem unrecorded_fault {action : Action σ Bits} {s s' : σ} {fault : Fault}
    (haction : action s = (.error fault, s')) (entry : Bits → Access ε) (record : Array (Access ε)) :
    (do
      let value ← unrecorded action
      note (entry value)
      pure value : Action (Recorded σ ε) Bits) ⟨s, record⟩ = (.error fault, ⟨s', record⟩) := by
  have hrun : (unrecorded action : Action (Recorded σ ε) Bits) ⟨s, record⟩ =
      (.error fault, ⟨s', record⟩) := by
    simp only [unrecorded, haction]
  exact Interpretation.bind_of_error hrun _

/-- A change leaves its entry, whatever the machine makes of it. -/
theorem note_then_unrecorded {action : Action σ Unit} {s s' : σ} {answer : Except Fault Unit}
    (haction : action s = (answer, s')) (entry : Access ε) (record : Array (Access ε)) :
    (do
      note entry
      unrecorded action : Action (Recorded σ ε) Unit) ⟨s, record⟩ = (answer, ⟨s', record.push entry⟩) := by
  change unrecorded action ⟨s, record.push entry⟩ = _
  simp only [unrecorded, haction]

variable [Machine σ ε]

/-- A question that the machine answers is answered alike with a record, and the
    record gains its entry. -/
theorem ask_eq {q : Query} {s s' : σ} {value : Bits}
    (hask : (q.ask : Action σ Bits) s = (.ok value, s')) (record : Array (Access ε)) :
    (q.ask : Action (Recorded σ ε) Bits) ⟨s, record⟩ =
      (.ok value, ⟨s', record.push (q.access value)⟩) := by
  cases q with
  | pc => exact unrecorded_then_note hask .getPc record
  | register id => exact unrecorded_then_note hask (.getRegister id) record
  | memory address => exact unrecorded_then_note hask (.getMemory address) record

theorem ask_fault {q : Query} {s s' : σ} {fault : Fault}
    (hask : (q.ask : Action σ Bits) s = (.error fault, s')) (record : Array (Access ε)) :
    (q.ask : Action (Recorded σ ε) Bits) ⟨s, record⟩ = (.error fault, ⟨s', record⟩) := by
  cases q with
  | pc => exact unrecorded_fault hask .getPc record
  | register id => exact unrecorded_fault hask (.getRegister id) record
  | memory address => exact unrecorded_fault hask (.getMemory address) record

/-- A change is made alike with a record, and the record gains its entry. -/
theorem make_eq {c : Change ε} {s s' : σ} {answer : Except Fault Unit}
    (hmake : (c.make : Action σ Unit) s = (answer, s')) (record : Array (Access ε)) :
    (c.make : Action (Recorded σ ε) Unit) ⟨s, record⟩ = (answer, ⟨s', record.push c.access⟩) := by
  cases c with
  | pc value => exact note_then_unrecorded hmake (.setPc value) record
  | register id value => exact note_then_unrecorded hmake (.setRegister id value) record
  | memory address value => exact note_then_unrecorded hmake (.setMemory address value) record
  | raise cause => exact note_then_unrecorded hmake (.raise cause) record

end Recorded

end RiscvSemantics
