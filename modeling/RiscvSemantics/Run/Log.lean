namespace RiscvSemantics.Log

/-- How important a line is, the most important first. -/
inductive Level where
  | warn | info | debug | trace
deriving DecidableEq

namespace Level

def name : Level → String
  | .warn => "WARN"
  | .info => "INFO"
  | .debug => "DEBUG"
  | .trace => "TRACE"

def rank : Level → Nat
  | .warn => 0
  | .info => 1
  | .debug => 2
  | .trace => 3

end Level

/-- The part of the program that a line comes from. -/
inductive Origin where
  | machine | execution | command
deriving DecidableEq

def Origin.name : Origin → String
  | .machine => "rvformula::backend"
  | .execution => "rvformula::execution"
  | .command => "formulabox"

structure Line where
  level : Level
  origin : Origin
  text : String

namespace Line

/-- Level, origin and text with nothing padded. -/
def plain (line : Line) : String :=
  s!"{line.level.name} {line.origin.name}: {line.text}"

/-- Level, padded to five places, and origin in brackets, then the text. -/
def bracketed (line : Line) : String :=
  let padding := String.ofList (List.replicate (5 - line.level.name.length) ' ')
  "[" ++ line.level.name ++ padding ++ " " ++ line.origin.name ++ "] " ++ line.text

end Line

end RiscvSemantics.Log
