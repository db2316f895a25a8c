import RiscvSemantics.Bits.Text
import RiscvSemantics.Formula.Evaluation
import RiscvSemantics.Run.Catalog

namespace RiscvSemantics

/-- The length in bytes of every instruction that is fetched. -/
def instructionBytes : Nat := 4

/-- Why a run broke off without a trap. -/
inductive RunError where
  /-- The word at the program counter is no instruction. -/
  | undecodable (pc : Bits) (word : BitVec 32)
  /-- The formula of the instruction at the program counter does not fit it. -/
  | contract (pc : Bits) (violation : Violation)
deriving DecidableEq

namespace RunError

def name : RunError → String
  | .undecodable .. => "Decode"
  | .contract .. => "Contract"

def message : RunError → String
  | .undecodable pc word =>
    s!"no instruction decodes from {Text.word word.toNat} at pc {pc.display}"
  | .contract pc violation => s!"formula contract violated at pc {pc.display}: {violation.message}"

/-- The messages of what caused the error. -/
def causes : RunError → List String
  | .undecodable .. => []
  | .contract _ violation => [violation.message]

end RunError

/-- What a run tells whoever listens. -/
inductive Notice (ω ε : Type) where
  | undecodable (pc : Bits) (word : BitVec 32)
  | executing (pc : Bits) (word : BitVec 32) (opcode : ω)
  | halted (cause : ε) (done budget : Nat)
  | ranOut (budget : Nat)

/-- Takes notices into `κ`. A listener may look at the machine but cannot change it. -/
abbrev Listener (κ σ ω ε : Type) := κ → σ → Notice ω ε → κ

variable {σ ε ω κ : Type} [Machine σ ε]

/-- The byte that lies `offset` behind the program counter. -/
@[inline] def fetchByte (pc : Bits) (offset : Nat) : Action σ (BitVec 8) := do
  let cell ← Machine.getMemory (pc.advance offset)
  pure (cell.value.setWidth 8)

/-- The program counter and the word there, the first byte of which is the lowest. -/
@[specialize] def fetch : Action σ (Bits × BitVec 32) := do
  let pc ← Machine.getPc
  let b0 ← fetchByte pc 0
  let b1 ← fetchByte pc 1
  let b2 ← fetchByte pc 2
  let b3 ← fetchByte pc 3
  pure (pc, b3 ++ b2 ++ b1 ++ b0)

/-- Fetches, decodes and executes one instruction. The program counter moves only
    if the formula moves it. -/
@[specialize] def stepWith (listen : Listener κ σ ω ε) (catalog : Catalog ω ε) (heard : κ)
    (state : σ) :
    Except (Stop RunError) Unit × κ × σ :=
  match (fetch : Action σ _) state with
  | (.error fault, state) => (.error (.fault fault), heard, state)
  | (.ok (pc, word), state) =>
    match catalog.decode word (Machine.extensions state) with
    | none =>
      let heard := listen heard state (.undecodable pc word)
      (.error (.error (.undecodable pc word)), heard, state)
    | some decoded =>
      let heard := listen heard state (.executing pc word decoded.opcode)
      let instruction := ⟨decoded.operands, instructionBytes⟩
      match (catalog.semantics decoded.opcode).execute instruction state with
      | (answer, state) => (answer.mapError (Stop.map (.contract pc)), heard, state)

/-- `stepWith` with nobody listening. -/
def step (catalog : Catalog ω ε) : Interpretation σ RunError Unit := fun state =>
  match stepWith (fun _ _ _ => ()) catalog () state with
  | (answer, _, state) => (answer, state)

end RiscvSemantics
