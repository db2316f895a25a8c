import RiscvSemantics.Isa.Cause
import RiscvSemantics.Isa.Extensions
import RiscvSemantics.Json.Codec
import RiscvSemantics.Json.Record

namespace RiscvSemantics

open Json

namespace Bits

/-- Width and value as they stand in a text, before it is known that they fit. -/
structure Unchecked where
  width : Option Nat
  value : Option Nat

def uncheckedRecord : Record Unchecked (Nat × Nat) where
  title := "struct SerializedBitVector"
  fields :=
    [⟨"width", (·.width.isSome), fun r => do
        let n ← readUnsigned UInt32.size "u32"
        pure { r with width := some n }⟩,
      ⟨"bits", (·.value.isSome), fun r => do
        let n ← readUnsigned UInt64.size "u64"
        pure { r with value := some n }⟩]
  empty := ⟨none, none⟩
  finish r := do
    let width ← requireField "width" r.width
    let value ← requireField "bits" r.value
    .ok (width, value)

end Bits

namespace Json

def memberText (member : String × Nat) : String :=
  "\"" ++ member.1 ++ "\":" ++ toString member.2

/-- Structures as maps, written without white space. -/
def codec : Codec (List UInt8) Json.Error where
  write _ fields := "\x7b" ++ String.intercalate "," (fields.map memberText) ++ "\x7d"
  start text := text.toUTF8.data.toList
  readParts := Bits.uncheckedRecord.read
  finish := do
    if (← peekToken).isSome then throw .malformed
  refuse := .unacceptable

end Json

namespace Bits

def toJson (a : Bits) : String :=
  serialize codec a

def ofJson (text : String) : Except Json.Error Bits :=
  deserialize codec text

end Bits

namespace Extensions

def toJson (e : Extensions) : String :=
  let member (flag : Char × Bool) := "\"" ++ flag.1.toString ++ "\":" ++ toString flag.2
  "\x7b" ++ String.intercalate "," (e.flags.map member) ++ "\x7d"

/-- The flags that have been read, by letter. -/
abbrev Flags := List (Char × Bool)

def flagField (letter : Char) : Json.Field Flags :=
  ⟨letter.toString, fun flags => (flags.lookup letter).isSome, fun flags => do
    let on ← readBool
    pure ((letter, on) :: flags)⟩

def flagsRecord : Record Flags Extensions where
  title := "struct Extensions"
  fields := ['m', 'a', 'f', 'd', 'c'].map flagField
  empty := []
  finish flags := do
    let flag (letter : Char) := requireField letter.toString (flags.lookup letter)
    .ok ⟨← flag 'm', ← flag 'a', ← flag 'f', ← flag 'd', ← flag 'c'⟩

def ofJson (text : String) : Except Json.Error Extensions :=
  readAll flagsRecord.read text

end Extensions

namespace Cause

def toJson (cause : Cause) : String :=
  "\"" ++ cause.name ++ "\""

def ofJson (text : String) : Except Json.Error Cause :=
  readAll (readVariant ofName? (all.map name)) text

end Cause

end RiscvSemantics
