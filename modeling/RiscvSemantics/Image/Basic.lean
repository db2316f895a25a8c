import RiscvSemantics.Text.Blank
import RiscvSemantics.Text.Numeral

namespace RiscvSemantics.Image

/-- Why an image cannot be loaded into a machine that traps for causes of type `ε`.
    Lines count from 1. -/
inductive Error (ε : Type) where
  | noLines
  | notText
  | badHeader
  | badCount (line : Nat) (reason : Text.NumeralError)
  | badWord (line : Nat) (reason : Text.NumeralError)
  /-- A trap is pending after all bytes have been stored. -/
  | trapped (cause : ε) (stored base : Nat)
deriving DecidableEq

/-- What went wrong, followed by why. -/
def Error.messages {ε : Type} (causeName : ε → String) : Error ε → List String
  | .noLines => ["unexpected eof"]
  | .notText => ["stream did not contain valid UTF-8"]
  | .badHeader =>
    ["invalid Logisim memory image header (file must begin with a line \"v2.0 raw\")"]
  | .badCount line reason => [s!"unable to parse count on line {line}", reason.message]
  | .badWord line reason => [s!"unable to parse value on line {line}", reason.message]
  | .trapped cause stored base =>
    [s!"{causeName cause} while storing a {stored}-byte image at {Text.marked 1 base}"]

/-- Splits a file at its line feeds. What follows the last one is a line unless it
    is empty. -/
def lines : List UInt8 → List (List UInt8)
  | [] => []
  | byte :: rest =>
    if byte = 10 then [] :: lines rest
    else
      match lines rest with
      | [] => [[byte]]
      | line :: others => (byte :: line) :: others

/-- The text of a line, which has to be UTF-8. -/
def decodeLine {ε : Type} (line : List UInt8) : Except (Error ε) (List Char) :=
  match String.fromUTF8? ⟨line.toArray⟩ with
  | some text => .ok text.toList
  | none => .error .notText

/-- The line that an image starts with. -/
def header : List Char :=
  "v2.0 raw".toList

/-- Some copies of one word. -/
structure Repeat where
  count : Nat
  word : BitVec 32
deriving DecidableEq

/-- Reads a word in base 16. -/
def readWord (cs : List Char) : Except Text.NumeralError (BitVec 32) :=
  (Text.readNumeral 16 UInt32.size cs).map (BitVec.ofNat 32)

/-- Reads a line behind the header: nothing, a word, or a count, a star and a word.
    White space around it does not matter. -/
def parseLine {ε : Type} (number : Nat) (cs : List Char) : Except (Error ε) (Option Repeat) :=
  match Text.trim cs with
  | [] => .ok none
  | c :: rest =>
    let content := c :: rest
    match content.dropWhile (· != '*') with
    | [] => do
      let word ← (readWord content).mapError (.badWord number)
      .ok (some ⟨1, word⟩)
    | _ :: afterStar => do
      let beforeStar := content.takeWhile (· != '*')
      let count ← (Text.readNumeral 10 UInt64.size beforeStar).mapError (.badCount number)
      let word ← (readWord afterStar).mapError (.badWord number)
      .ok (some ⟨count, word⟩)

end RiscvSemantics.Image
