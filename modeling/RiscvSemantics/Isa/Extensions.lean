namespace RiscvSemantics

/-- The standard extensions that are switched on above the base integer
    instructions. -/
structure Extensions where
  /-- Integer multiplication and division. -/
  m : Bool
  /-- Atomics. -/
  a : Bool
  /-- Single-precision floating point. -/
  f : Bool
  /-- Double-precision floating point. -/
  d : Bool
  /-- Compressed instructions. -/
  c : Bool
deriving DecidableEq

namespace Extensions

/-- The base integer instructions alone. -/
def none : Extensions :=
  ⟨false, false, false, false, false⟩

/-- Each extension's letter with whether it is on, in the order in which
    extensions are listed. -/
def flags (e : Extensions) : List (Char × Bool) :=
  [('m', e.m), ('a', e.a), ('f', e.f), ('d', e.d), ('c', e.c)]

/-- The letters of the extensions that are on. -/
def letters (e : Extensions) : String :=
  String.ofList ((e.flags.filter (·.2)).map (·.1))

/-- The text shown where extensions appear inside other values. -/
def debugText (e : Extensions) : String :=
  let flag (f : Char × Bool) := f.1.toString ++ ": " ++ toString f.2
  "Extensions \x7b " ++ String.intercalate ", " (e.flags.map flag) ++ " \x7d"

/-- The extensions whose letters occur in a text. -/
def ofLetters (cs : List Char) : Extensions :=
  ⟨cs.contains 'm', cs.contains 'a', cs.contains 'f', cs.contains 'd', cs.contains 'c'⟩

end Extensions

end RiscvSemantics
