import RiscvSemantics.Command.Arguments
import RiscvSemantics.Command.Report
import RiscvSemantics.Image.Load
import RiscvSemantics.Isa.Name
import RiscvSemantics.Machine.Hart
import RiscvSemantics.Run.Journal
import RiscvSemantics.Rv32.Semantics

namespace RiscvSemantics.Command

/-- A run that the arguments ask for, before its image has been read. -/
structure Job where
  arguments : Arguments
  extensions : Extensions

/-- What became of reading the image. -/
inductive ImageFile where
  | content (bytes : ByteArray)
  /-- The file could not be opened. -/
  | unopened (reason : String)
  /-- The file was opened but could not be read. -/
  | unread (reason : String)

/-- What is reported in place of a run. -/
def Dismissal.report : Dismissal → Report
  | .informed text => ⟨0, text, []⟩
  | .refused e => ⟨2, "", (textLines ("error: " ++ e.message)).take 1⟩

/-- Reads the arguments, or reports why there is nothing to run. -/
def Arguments.parse (arguments : List String) : Except Report Arguments :=
  (Arguments.read arguments).mapError Dismissal.report

/-- The arguments as `parse` reads them, with the instruction set that they name; only RV32 is run. -/
def Job.planWith (parse : List String → Except Report Arguments) (arguments : List String) :
    Except Report Job :=
  match parse arguments with
  | .error report => .error report
  | .ok arguments =>
    match Isa.parse arguments.isa with
    | .error e =>
      .error (Report.failure s!"unable to parse ISA string {Text.quoted arguments.isa}" [e.message])
    | .ok (xlen, extensions) =>
      if xlen = 32 then .ok ⟨arguments, extensions⟩
      else .error (Report.failure s!"the sample catalog is RV32 only, not RV{xlen}" [])

def Job.plan : List String → Except Report Job :=
  Job.planWith Arguments.parse

/-- The name of a register, such as `x5`. -/
def registerName (i : Fin 32) : String :=
  s!"x{i.val}"

/-- The line about one value: its name, padded to a width, and the value. -/
def valueLine (width : Nat) (name : String) (value : BitVec 32) : String :=
  let padding := String.ofList (List.replicate (width - name.length) ' ')
  s!"{name}{padding} = {Text.word value.toNat}"

/-- The program counter, then the registers that are not zero. -/
def registerLines (hart : Hart Xlen.rv32) : List String :=
  let registers := (List.finRange 32).filter fun i => hart.register i ≠ 0
  valueLine 2 "pc" hart.pc :: registers.map fun i => valueLine 3 (registerName i) (hart.register i)

/-- How a run ended: halted by a cause before its last step, with a cause raised by
    its last step, or with none. -/
def endLine (steps : Nat) (halt pending : Option Cause) : String :=
  match halt, pending with
  | some cause, _ => s!"halted: {cause.display}"
  | none, some cause => s!"ran {steps} steps, then: {cause.display}"
  | none, none => s!"ran {steps} steps"

def unlines (lines : List String) : String :=
  String.join (lines.map (· ++ "\n"))

/-- A fault never comes up in a run; it would be a failure without a message of its
    own. -/
def stopLines {ε : Type} (report : ε → List String) : Stop ε → List String
  | .fault fault => failureLines fault.message []
  | .error e => report e

/-- Runs a hart on which so many bytes have been stored, from the entry on, and reports the state in which
    it was left. -/
def Job.execute (job : Job) (stored : Nat) (hart : Hart Xlen.rv32) : Report :=
  let arguments := job.arguments
  let loaded : Log.Line :=
    ⟨.info, .command, s!"loaded {stored} bytes at {Text.marked 1 arguments.entry}"⟩
  let listen := collect (isShown arguments.verbosity)
  match runWith listen Rv32.catalog arguments.steps #[] (hart.putPc arguments.entry) with
  | (answer, notices, hart) =>
    let log := loaded :: notices.toList.map (·.line Rv32.Opcode.name Cause.name)
    let shown := shownLines arguments.verbosity log
    match answer with
    | .ok halt =>
      let lines := registerLines hart ++ [endLine arguments.steps halt hart.trap]
      ⟨0, unlines lines, shown⟩
    | .error stop =>
      let failure := stopLines (fun e => failureLines e.message e.causes) stop
      ⟨1, unlines (registerLines hart), shown ++ failure⟩

/-- The most bytes that a memory can be asked to have. It is assumed that the system has room for a memory
    that is not larger than this. -/
def largestMemory : Nat :=
  UInt64.size / 2 - 1

/-- The program ends at once if its memory cannot have the size that is asked for. -/
def Report.capacityOverflow : Report :=
  ⟨101, "", ["capacity overflow"]⟩

/-- Loads the image, once the memory has been laid out, and runs it. -/
def Job.run (job : Job) (file : ImageFile) : Report :=
  let arguments := job.arguments
  let loading := "unable to load the memory image"
  match file with
  | .unopened reason => Report.failure s!"unable to open {arguments.image}" [reason]
  | .unread reason =>
    if arguments.ramSize ≤ largestMemory then Report.failure loading [reason]
    else Report.capacityOverflow
  | .content bytes =>
    if arguments.ramSize ≤ largestMemory then
      let hart := Hart.new Xlen.rv32 arguments.ramSize job.extensions
      let load : Interpretation (Hart Xlen.rv32) (Image.Error Cause) Nat :=
        Image.load arguments.entry bytes
      match load.run hart with
      | (.error stop, _) =>
        ⟨1, "", stopLines (fun e => failureLines loading (e.messages Cause.name)) stop⟩
      | (.ok stored, hart) => job.execute stored hart
    else Report.capacityOverflow

/-- The whole command, by the way in which its arguments are read. The image is read only if they lead to a
    run. -/
@[specialize] def answerWith {m : Type → Type} [Monad m] (parse : List String → Except Report Arguments)
    (readImage : String → m ImageFile) (arguments : List String) : m Report :=
  match Job.planWith parse arguments with
  | .error report => pure report
  | .ok job => do
    let file ← readImage job.arguments.image
    pure (job.run file)

/-- The whole command. -/
@[specialize] def answer {m : Type → Type} [Monad m] (readImage : String → m ImageFile)
    (arguments : List String) : m Report :=
  answerWith Arguments.parse readImage arguments

end RiscvSemantics.Command
