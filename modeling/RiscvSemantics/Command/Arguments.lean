import RiscvSemantics.Command.Help
import RiscvSemantics.Text.ControlSequence
import RiscvSemantics.Text.Numeral
import RiscvSemantics.Text.Quoted

namespace RiscvSemantics.Command

/-- The arguments that carry a value. -/
inductive Setting where
  | image | steps | isa | entry | ramSize
deriving DecidableEq

namespace Setting

/-- The name of the option, without its dashes; the image is given by position. -/
def option? : Setting → Option String
  | .image => none
  | .steps => some "steps"
  | .isa => some "isa"
  | .entry => some "entry"
  | .ramSize => some "ram-size"

/-- How messages name the argument. -/
def title : Setting → String
  | .image => "<IMAGE>"
  | .steps => "--steps <STEPS>"
  | .isa => "--isa <ISA>"
  | .entry => "--entry <ENTRY>"
  | .ramSize => "--ram-size <RAM_SIZE>"

/-- The argument that an option name stands for. -/
def ofOption? (name : String) : Option Setting :=
  [steps, isa, entry, ramSize].find? (·.option? == some name)

end Setting

/-- The options that carry no value. -/
inductive Flag where
  | verbose | help | version
deriving DecidableEq

namespace Flag

/-- The name of the option, without its dashes. -/
def option : Flag → String
  | .verbose => "verbose"
  | .help => "help"
  | .version => "version"

/-- The letter that stands for the option behind a single dash. -/
def letter : Flag → Char
  | .verbose => 'v'
  | .help => 'h'
  | .version => 'V'

/-- How messages name the option; dots say that it can be repeated. -/
def title : Flag → String
  | .verbose => "--verbose..."
  | .help => "--help"
  | .version => "--version"

/-- The flag that an option name stands for. -/
def ofOption? (name : String) : Option Flag :=
  [verbose, help, version].find? (·.option == name)

/-- The flag that a letter stands for. -/
def ofLetter? (c : Char) : Option Flag :=
  [verbose, help, version].find? (·.letter == c)

end Flag

/-- Why arguments are not accepted. -/
inductive ArgumentError where
  | unexpected (argument : String)
  | missingImage
  | invalidValue (setting : Setting) (value reason : String)
  | missingValue (setting : Setting)
  | repeated (setting : Setting)
  | flagValue (flag : Flag) (value : String)
deriving DecidableEq

/-- The message for the user. Arguments appear in it as a terminal shows them. -/
def ArgumentError.message : ArgumentError → String
  | .unexpected argument => s!"unexpected argument '{Text.withoutControls argument}' found"
  | .missingImage => "the following required arguments were not provided:"
  | .invalidValue setting value reason =>
    s!"invalid value '{Text.withoutControls value}' for '{setting.title}': {reason}"
  | .missingValue setting =>
    s!"a value is required for '{setting.title}' but none was supplied"
  | .repeated setting => s!"the argument '{setting.title}' cannot be used multiple times"
  | .flagValue flag value =>
    let shown := Text.withoutControls value
    s!"unexpected value '{shown}' for '{flag.title}' found; no more were expected"

/-- Why arguments lead to no run. -/
inductive Dismissal where
  | refused (error : ArgumentError)
  /-- The text is asked for instead of a run. -/
  | informed (text : String)
deriving DecidableEq

/-- What the arguments say. -/
structure Arguments where
  /-- The path of the memory image. -/
  image : String
  /-- How many instructions may be executed. -/
  steps : Nat
  isa : String
  /-- Where the image is stored and the run starts. -/
  entry : Nat
  /-- The size of the memory in bytes. -/
  ramSize : Nat
  verbosity : Nat

/-- The arguments seen so far. -/
structure Seen where
  image : Option String
  steps : Option Nat
  isa : Option String
  entry : Option Nat
  ramSize : Option Nat
  verbosity : Nat

def Seen.none : Seen :=
  ⟨.none, .none, .none, .none, .none, 0⟩

def Seen.has (seen : Seen) : Setting → Bool
  | .image => seen.image.isSome
  | .steps => seen.steps.isSome
  | .isa => seen.isa.isSome
  | .entry => seen.entry.isSome
  | .ramSize => seen.ramSize.isSome

/-- Reads a number below `2 ^ 64` in base 10. -/
def readCount (setting : Setting) (value : String) : Except ArgumentError Nat :=
  (Text.readNumeral 10 UInt64.size value.toList).mapError fun e =>
    .invalidValue setting value e.message

/-- Reads an address: base 16 behind `0x` or `0X`, else base 10. -/
def readAddress (value : String) : Except ArgumentError Nat :=
  let read :=
    match value.toList with
    | '0' :: 'x' :: digits | '0' :: 'X' :: digits => Text.readNumeral 16 UInt64.size digits
    | digits => Text.readNumeral 10 UInt64.size digits
  read.mapError fun e =>
    .invalidValue .entry value s!"bad address {Text.quoted value}: {e.message}"

/-- Takes a value in. A setting can be given once. -/
def Seen.put (seen : Seen) (setting : Setting) (value : String) : Except ArgumentError Seen :=
  if seen.has setting then .error (.repeated setting)
  else
    match setting with
    | .image =>
      if value.isEmpty then .error (.missingValue .image) else .ok { seen with image := some value }
    | .steps => do .ok { seen with steps := some (← readCount .steps value) }
    | .isa => .ok { seen with isa := some value }
    | .entry => do .ok { seen with entry := some (← readAddress value) }
    | .ramSize => do .ok { seen with ramSize := some (← readCount .ramSize value) }

/-- A setting that has been named but not taken in: its value may be to come, or be
    there and wait for the argument behind it. An argument that is unknown is
    reported before such a value is looked at. -/
structure Pending where
  setting : Setting
  value : Option String

structure ReadState where
  seen : Seen
  pending : Option Pending
  /-- Whether the image has been named. -/
  imageNamed : Bool
  /-- Whether all that follows is given by position. -/
  positional : Bool

namespace ReadState

def start : ReadState :=
  ⟨Seen.none, none, false, false⟩

def refuse (e : ArgumentError) : Except Dismissal ReadState :=
  .error (.refused e)

/-- Takes a setting in with its value. -/
def put (s : ReadState) (setting : Setting) (value : String) : Except Dismissal ReadState := do
  let seen ← (s.seen.put setting value).mapError .refused
  .ok { s with seen }

/-- Takes the pending setting in. -/
def settle (s : ReadState) : Except Dismissal ReadState :=
  match s.pending with
  | none => .ok s
  | some ⟨setting, none⟩ => refuse (.missingValue setting)
  | some ⟨setting, some value⟩ => { s with pending := none }.put setting value

/-- Takes a flag in. What is asked for is given at once, whatever follows, but not
    before the pending setting is known to be right. -/
def takeFlag (s : ReadState) (flag : Flag) : Except Dismissal ReadState := do
  let s ← s.settle
  match flag with
  | .verbose => .ok { s with seen := { s.seen with verbosity := s.seen.verbosity + 1 } }
  | .help => .error (.informed helpText)
  | .version => .error (.informed versionText)

/-- Reads an option behind its two dashes. -/
def readLong (s : ReadState) (text : List Char) : Except Dismissal ReadState :=
  let name := String.ofList (text.takeWhile (· != '='))
  let attached? : Option String :=
    match text.dropWhile (· != '=') with
    | [] => none
    | _ :: value => some (String.ofList value)
  match Setting.ofOption? name with
  | some setting => do
    let s ← s.settle
    match attached? with
    | some value => s.put setting value
    | none => .ok { s with pending := some ⟨setting, none⟩ }
  | none =>
    match Flag.ofOption? name, attached? with
    | some flag, some value => refuse (.flagValue flag value)
    | some flag, none => s.takeFlag flag
    | none, _ => refuse (.unexpected ("--" ++ name))

/-- Reads the letters behind one dash. -/
def readShort (s : ReadState) : List Char → Except Dismissal ReadState
  | [] => .ok s
  | c :: rest =>
    match Flag.ofLetter? c with
    | some flag => do (← s.takeFlag flag).readShort rest
    | none => refuse (.unexpected (String.ofList ['-', c]))

/-- Reads an argument by position, which can only be the image. -/
def readPositional (s : ReadState) (argument : String) : Except Dismissal ReadState :=
  if s.imageNamed then refuse (.unexpected argument)
  else do
    let s ← s.settle
    .ok { s with pending := some ⟨.image, some argument⟩, imageNamed := true }

/-- Reads one argument. An option that waits for its value takes whatever does not
    look like an option. -/
def read (s : ReadState) (argument : String) : Except Dismissal ReadState :=
  if s.positional then s.readPositional argument
  else
    match argument.toList with
    | ['-', '-'] => .ok { s with positional := true }
    | '-' :: '-' :: text => s.readLong text
    | '-' :: c :: text => s.readShort (c :: text)
    | _ =>
      match s.pending with
      | some ⟨setting, none⟩ => .ok { s with pending := some ⟨setting, some argument⟩ }
      | _ => s.readPositional argument

end ReadState

/-- Reads the arguments from left to right; what is not given has a default. -/
def Arguments.read (arguments : List String) : Except Dismissal Arguments := do
  let s ← arguments.foldlM ReadState.read ReadState.start
  let seen := (← s.settle).seen
  match seen.image with
  | none => .error (.refused .missingImage)
  | some image =>
    .ok
      { image
        steps := seen.steps.getD 1000
        isa := seen.isa.getD "rv32im"
        entry := seen.entry.getD 0
        ramSize := seen.ramSize.getD (16 * 1024 * 1024)
        verbosity := seen.verbosity }

end RiscvSemantics.Command
