import RiscvSemantics.Json.Number
import RiscvSemantics.Json.String

namespace RiscvSemantics.Json

/-- Passes over a key and the colon behind it. -/
def skipKey : Reader Unit := do
  let quote ← requireToken
  if quote != '\x22'.toUInt8 then throw .malformed
  advance
  skipString
  let colon ← requireToken
  if colon != ':'.toUInt8 then throw .malformed
  advance

mutual

/-- Passes over a value of any kind. Of two calls one takes something off the text, so
    a limit of twice its length is never reached. -/
def skipUpTo : (limit : Nat) → Reader Unit
  | 0 => throw .malformed
  | limit + 1 => do
    let b ← requireToken
    if b == 'n'.toUInt8 then expect "null".toList
    else if b == 't'.toUInt8 then expect "true".toList
    else if b == 'f'.toUInt8 then expect "false".toList
    else if b == '-'.toUInt8 then
      advance
      skipNumber
    else if isDigit b then skipNumber
    else if b == '\x22'.toUInt8 then
      advance
      skipString
    else if b == '['.toUInt8 then
      advance
      skipElements limit true
    else if b == '{'.toUInt8 then
      advance
      skipMembers limit true
    else throw .malformed

/-- Passes over the rest of a sequence. -/
def skipElements : (limit : Nat) → (isFirst : Bool) → Reader Unit
  | 0, _ => throw .malformed
  | limit + 1, isFirst => do
    let b ← requireToken
    if b == ']'.toUInt8 then advance
    else
      if !isFirst then
        if b != ','.toUInt8 then throw .malformed
        advance
      skipUpTo limit
      skipElements limit false

/-- Passes over the rest of a map. -/
def skipMembers : (limit : Nat) → (isFirst : Bool) → Reader Unit
  | 0, _ => throw .malformed
  | limit + 1, isFirst => do
    let b ← requireToken
    if b == '}'.toUInt8 then advance
    else
      if !isFirst then
        if b != ','.toUInt8 then throw .malformed
        advance
      skipKey
      skipUpTo limit
      skipMembers limit false

end

/-- Passes over a value of any kind. -/
def skipValue : Reader Unit := do
  skipUpTo (2 * (← get).length + 1)

end RiscvSemantics.Json
