import RiscvSemantics.Machine.Recorded
import RiscvSemantics.Run.Log
import RiscvSemantics.Run.Loop

namespace RiscvSemantics

variable {σ ω ε : Type}

namespace Notice

/-- How important a notice is. -/
def level : Notice ω ε → Log.Level
  | .undecodable .. => .warn
  | .executing .. => .trace
  | .halted .. | .ranOut .. => .debug

/-- The text of a notice. -/
def text (opcodeName : ω → String) (causeName : ε → String) : Notice ω ε → String
  | .undecodable pc word => s!"undecodable instruction {Text.word word.toNat} at pc {pc.display}"
  | .executing pc word opcode => s!"pc {pc.display}: {Text.word word.toNat} {opcodeName opcode}"
  | .halted cause done budget => s!"halted by {causeName cause} after {done} of {budget} steps"
  | .ranOut budget => s!"ran {budget} steps"

/-- The line that a notice leaves in a log. -/
def line (opcodeName : ω → String) (causeName : ε → String) (notice : Notice ω ε) : Log.Line :=
  ⟨notice.level, .execution, notice.text opcodeName causeName⟩

end Notice

/-- The line that an access leaves in a log. -/
def Access.line (causeName : ε → String) (access : Access ε) : Log.Line :=
  ⟨.trace, .machine, access.text causeName⟩

/-- A notice with the number of accesses that had been recorded when it came. -/
structure Stamped (ω ε : Type) where
  position : Nat
  notice : Notice ω ε

/-- Collects the notices of a run on a machine with a record. -/
def stamp : Listener (Array (Stamped ω ε)) (Recorded σ ε) ω ε := fun heard recorded notice =>
  heard.push ⟨recorded.record.size, notice⟩

/-- Collects the notices of a run that are important enough. -/
def collect (isShown : Log.Level → Bool) : Listener (Array (Notice ω ε)) σ ω ε :=
  fun heard _ notice => if isShown notice.level then heard.push notice else heard

/-- The lines of a record and of the notices that came while it grew, in the order in
    which they came. `position` accesses have been written already. -/
def journal (opcodeName : ω → String) (causeName : ε → String) :
    (position : Nat) → List (Access ε) → List (Stamped ω ε) → List Log.Line
  | _, [], notices => notices.map (·.notice.line opcodeName causeName)
  | _, accesses, [] => accesses.map (·.line causeName)
  | position, access :: accesses, stamped :: notices =>
    if stamped.position ≤ position then
      stamped.notice.line opcodeName causeName ::
        journal opcodeName causeName position (access :: accesses) notices
    else
      access.line causeName ::
        journal opcodeName causeName (position + 1) accesses (stamped :: notices)
termination_by _ accesses notices => accesses.length + notices.length

end RiscvSemantics
