import RiscvSemantics.Run.Log

namespace RiscvSemantics.Command

/-- What the command leaves behind: its exit code and the text on both outputs. -/
structure Report where
  code : Nat
  stdout : String
  stderr : List String

/-- A line without the carriage return that may end it. -/
def withoutReturn (line : List Char) : String :=
  String.ofList (if line.getLast? = some '\r' then line.dropLast else line)

/-- The lines of a text, each of which ends in a line feed or in a carriage return and
    a line feed; behind the last one, a line feed is to come. -/
def textLines (s : String) : List String :=
  let (last, before) := s.toList.foldr (fun c (current, lines) =>
    if c = '\n' then ([], withoutReturn current :: lines) else (c :: current, lines)) ([], [])
  withoutReturn last :: before

/-- What went wrong, and below it why, numbered if there are several reasons. -/
def failureLines (message : String) (causes : List String) : List String :=
  let block :=
    match causes with
    | [] => []
    | [cause] => ["", "Caused by:", "    " ++ cause]
    | _ => "" :: "Caused by:" :: causes.zipIdx.map fun (cause, i) => s!"    {i}: {cause}"
  (("Error: " ++ message) :: block).flatMap textLines

/-- A failure before anything was run. -/
def Report.failure (message : String) (causes : List String) : Report :=
  ⟨1, "", failureLines message causes⟩

/-- Whether lines of a level are shown at a verbosity: warnings always, and one more
    level for each step. -/
def isShown (verbosity : Nat) (level : Log.Level) : Bool :=
  level.rank ≤ verbosity

/-- The lines of a log that are shown at a verbosity. -/
def shownLines (verbosity : Nat) (lines : List Log.Line) : List String :=
  (lines.filter fun line => isShown verbosity line.level).flatMap fun line =>
    textLines line.bracketed

end RiscvSemantics.Command
