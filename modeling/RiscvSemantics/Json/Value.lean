import RiscvSemantics.Json.Skip

namespace RiscvSemantics.Json

def reject {α : Type} (reason : Rejection) : Reader α :=
  throw (.unacceptable reason)

/-- Reads a value that is not of the expected type and refuses it. Of sequences and
    maps only the first byte is looked at. -/
def rejectType {α : Type} (expected : String) : Reader α := do
  let found ← readFound (← requireToken)
  reject (.invalidType found expected)
where
  readFound (b : UInt8) : Reader Found := do
    if b == 'n'.toUInt8 then
      expect "null".toList
      pure .null
    else if b == 't'.toUInt8 then
      expect "true".toList
      pure (.boolean true)
    else if b == 'f'.toUInt8 then
      expect "false".toList
      pure (.boolean false)
    else if b == '-'.toUInt8 then
      advance
      Number.found <$> readNumber false
    else if isDigit b then Number.found <$> readNumber true
    else if b == '\x22'.toUInt8 then
      advance
      Found.string <$> readString
    else if b == '['.toUInt8 then pure .sequence
    else if b == '{'.toUInt8 then pure .map
    else throw .malformed

/-- Reads a truth value. -/
def readBool : Reader Bool := do
  let b ← requireToken
  if b == 't'.toUInt8 then
    expect "true".toList
    pure true
  else if b == 'f'.toUInt8 then
    expect "false".toList
    pure false
  else rejectType "a boolean"

/-- Reads a whole number below `limit`; `expected` names the type. -/
def readUnsigned (limit : Nat) (expected : String) : Reader Nat := do
  let b ← requireToken
  if b == '-'.toUInt8 || isDigit b then
    if b == '-'.toUInt8 then advance
    let number ← readNumber (b != '-'.toUInt8)
    match number with
    | .unsigned n =>
      if n < limit then pure n else reject (.invalidValue number.found expected)
    | .negative _ => reject (.invalidValue number.found expected)
    | .float _ => reject (.invalidType number.found expected)
  else rejectType expected

/-- Reads a null. -/
def readUnit : Reader Unit := do
  let b ← requireToken
  if b == 'n'.toUInt8 then expect "null".toList else rejectType "unit"

/-- Reads a value that one of the given names stands for. The name may be a string of
    its own or the only key of a map with a null. -/
def readVariant {α : Type} (ofName? : String → Option α) (variants : List String) : Reader α := do
  let b ← requireToken
  if b == '\x22'.toUInt8 then readName
  else if b == '{'.toUInt8 then
    advance
    let quote ← requireToken
    if quote != '\x22'.toUInt8 then throw .malformed
    let a ← readName
    let colon ← requireToken
    if colon != ':'.toUInt8 then throw .malformed
    advance
    readUnit
    let close ← requireToken
    if close != '}'.toUInt8 then throw .malformed
    advance
    pure a
  else throw .malformed
where
  readName : Reader α := do
    advance
    let name ← readString
    match ofName? name with
    | some a => pure a
    | none => reject (.unknownVariant name variants)

/-- Reads a whole text as one value. -/
def readAll {α : Type} (reader : Reader α) (text : String) : Except Error α := do
  let ((a, next), _) ← (do
    let a ← reader
    let next ← peekToken
    pure (a, next) : Reader (α × Option UInt8)).run text.toUTF8.data.toList
  if next.isSome then .error .malformed else .ok a

end RiscvSemantics.Json
