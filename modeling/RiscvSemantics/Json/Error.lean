import RiscvSemantics.Text.Quoted
import RiscvSemantics.Text.Shortest

namespace RiscvSemantics.Json

/-- A value that was found in a text. -/
inductive Found where
  | null
  | boolean (b : Bool)
  | unsigned (n : Nat)
  | negative (i : Int)
  | float (x : Float)
  | string (s : String)
  | sequence
  | map

def Found.describe : Found → String
  | .null => "null"
  | .boolean b => "boolean \x60" ++ toString b ++ "\x60"
  | .unsigned n => "integer \x60" ++ toString n ++ "\x60"
  | .negative i => "integer \x60" ++ toString i ++ "\x60"
  | .float x => "floating point \x60" ++ Text.floatText x ++ "\x60"
  | .string s => "string " ++ Text.quoted s
  | .sequence => "sequence"
  | .map => "map"

/-- Why a value that could be read is not acceptable. -/
inductive Rejection where
  | invalidType (found : Found) (expected : String)
  | invalidValue (found : Found) (expected : String)
  | invalidLength (length : Nat) (expected : String)
  | missingField (name : String)
  | duplicateField (name : String)
  | unknownVariant (name : String) (variants : List String)

/-- A name in the marks that messages put around names. -/
def ticked (name : String) : String :=
  "\x60" ++ name ++ "\x60"

def Rejection.message : Rejection → String
  | .invalidType found expected => "invalid type: " ++ found.describe ++ ", expected " ++ expected
  | .invalidValue found expected => "invalid value: " ++ found.describe ++ ", expected " ++ expected
  | .invalidLength length expected => s!"invalid length {length}, expected {expected}"
  | .missingField name => "missing field " ++ ticked name
  | .duplicateField name => "duplicate field " ++ ticked name
  | .unknownVariant name variants =>
    "unknown variant " ++ ticked name ++ ", expected one of " ++
      String.intercalate ", " (variants.map ticked)

/-- Why a text cannot be read as a value. -/
inductive Error where
  /-- The text is no JSON. -/
  | malformed
  /-- The text ends too early. -/
  | truncated
  | unacceptable (reason : Rejection)

/-- Reads something off the front of a text. -/
abbrev Reader := StateT (List UInt8) (Except Error)

end RiscvSemantics.Json
