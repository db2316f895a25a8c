import RiscvSemantics.Isa.Extensions
import RiscvSemantics.Text.Blank
import RiscvSemantics.Text.Quoted

namespace RiscvSemantics

/-- Why a text names no instruction set. -/
inductive IsaError where
  | badBase
  | missingBaseInteger
  | unknownExtension (letter : Char)
  | doubleWithoutFloat
deriving DecidableEq

namespace IsaError

def name : IsaError → String
  | .badBase => "BadBase"
  | .missingBaseInteger => "MissingBaseInteger"
  | .unknownExtension _ => "UnknownExtension"
  | .doubleWithoutFloat => "DoubleWithoutFloat"

def message : IsaError → String
  | .badBase => "ISA must start with 'rv32' or 'rv64'"
  | .missingBaseInteger => "'i' must be present in ISA"
  | .unknownExtension letter => "unknown ISA extension " ++ Text.quotedChar letter
  | .doubleWithoutFloat => "'f' must be present in ISA if 'd' is"

end IsaError

namespace Isa

/-- Splits off the base and gives its register width. -/
def splitBase : List Char → Option (Nat × List Char)
  | 'r' :: 'v' :: '3' :: '2' :: letters => some (32, letters)
  | 'r' :: 'v' :: '6' :: '4' :: letters => some (64, letters)
  | _ => none

/-- Whether a letter may follow the base. -/
def isExtensionLetter (c : Char) : Bool :=
  "imafdc".toList.contains c

/-- Reads the name of an instruction set, such as `rv32imac`, as its register width
    and extensions. White space around the name and the case of ASCII letters do
    not matter, nor do the order and repetition of the letters. -/
def parse (text : String) : Except IsaError (Nat × Extensions) :=
  match splitBase ((Text.trim text.toList).map Char.toLower) with
  | none => .error .badBase
  | some (xlen, letters) =>
    if !letters.contains 'i' then .error .missingBaseInteger
    else
      match letters.find? fun c => !isExtensionLetter c with
      | some c => .error (.unknownExtension c)
      | none =>
        let extensions := Extensions.ofLetters letters
        if extensions.d && !extensions.f then .error .doubleWithoutFloat
        else .ok (xlen, extensions)

end Isa

end RiscvSemantics
