namespace RiscvSemantics.Text

/-- How far a terminal is in a control sequence. -/
inductive ControlState where
  /-- Outside all sequences. -/
  | ground
  /-- Behind an escape character. -/
  | escape
  /-- Behind an escape character and intermediate characters. -/
  | escapeIntermediate
  /-- In a control sequence, which ends at its first letter. -/
  | controlSequence
  /-- At the start of a device control string. -/
  | deviceStart
  /-- Among the parameters of a device control string. -/
  | deviceParameters
  /-- Behind the parameters of a device control string. -/
  | deviceIntermediate
  /-- In a string for a device or an application. -/
  | string
  /-- In a command to the operating system, which a bell ends. -/
  | command
deriving DecidableEq

/-- The controls that separate words and lines. -/
def isSpacing (c : Char) : Bool :=
  c = '\t' || c = '\n' || c = '\x0c' || c = '\r'

/-- Whether a terminal shows a character that stands outside all sequences. -/
def isShown (c : Char) : Bool :=
  isSpacing c || (' ' ≤ c && c != '\x7f')

namespace ControlState

/-- Whether a character within a sequence is shown and leaves the sequence open. -/
def shows (state : ControlState) (c : Char) : Bool :=
  match state with
  | .ground => isShown c
  | .escape | .escapeIntermediate | .controlSequence => isSpacing c
  | .deviceStart | .deviceParameters | .deviceIntermediate | .string | .command => false

/-- The state behind a character that is not shown. An escape character begins a new
    sequence anywhere; cancel and substitute end every sequence. -/
def next (state : ControlState) (c : Char) : ControlState :=
  if c = '\x1b' then .escape
  else if c = '\x18' || c = '\x1a' then .ground
  else
    match state with
    | .ground => .ground
    | .escape =>
      if c < ' ' || '~' < c then .escape
      else if c < '0' then .escapeIntermediate
      else if c = '[' then .controlSequence
      else if c = ']' then .command
      else if c = 'P' then .deviceStart
      else if c = 'X' || c = '^' || c = '_' then .string
      else .ground
    | .escapeIntermediate => if '0' ≤ c && c ≤ '~' then .ground else .escapeIntermediate
    | .controlSequence => if '@' ≤ c && c ≤ '~' then .ground else .controlSequence
    | .deviceStart =>
      if c < ' ' || '~' < c then .deviceStart
      else if c < '0' then .deviceIntermediate
      else if c < '@' then .deviceParameters
      else .string
    | .deviceParameters =>
      if c < ' ' || '~' < c then .deviceParameters
      else if c < '0' then .deviceIntermediate
      else if c < '<' then .deviceParameters
      else .string
    | .deviceIntermediate => if '0' ≤ c && c ≤ '~' then .string else .deviceIntermediate
    | .string => if (String.utf8EncodeChar c).contains 0x9c then .ground else .string
    | .command => if c = '\x07' then .ground else .command

/-- The characters that are shown from a state on. A character that is shown begins a
    stretch of text, in which characters are shown as outside all sequences; an open
    sequence is left there at the first character that is not ASCII. -/
def shownFrom (state : ControlState) (inText : Bool) : List Char → List Char
  | [] => []
  | c :: rest =>
    if (inText && isShown c) || state.shows c then
      c :: shownFrom (if c < '\x80' then state else .ground) true rest
    else shownFrom (state.next c) false rest

end ControlState

/-- What a terminal shows of a text: its controls and control sequences are gone, and
    so is what follows a sequence that does not end. -/
def withoutControls (s : String) : String :=
  String.ofList (ControlState.ground.shownFrom false s.toList)

end RiscvSemantics.Text
