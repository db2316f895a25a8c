import RiscvSemantics.Json.Value

namespace RiscvSemantics.Json

/-- A field of a record that is collected in `ρ` while it is read. -/
structure Field (ρ : Type) where
  name : String
  isSet : ρ → Bool
  read : ρ → Reader ρ

/-- A record: what messages call it, its fields in order, and what it is made from
    once they have been read. -/
structure Record (ρ α : Type) where
  title : String
  fields : List (Field ρ)
  empty : ρ
  finish : ρ → Except Rejection α

/-- The value of a field that has to be there. -/
def requireField {β : Type} (name : String) : Option β → Except Rejection β
  | some b => .ok b
  | none => .error (.missingField name)

variable {ρ α : Type}

/-- Whether a sequence goes on. -/
def hasElement (isFirst : Bool) : Reader Bool := do
  let b ← requireToken
  if b == ']'.toUInt8 then pure false
  else if isFirst then pure true
  else if b != ','.toUInt8 then throw .malformed
  else
    advance
    let next ← requireToken
    if next == ']'.toUInt8 then throw .malformed else pure true

/-- Reads fields from the elements of a sequence; `index` elements came before. -/
def readElements (expected : String) : (index : Nat) → List (Field ρ) → ρ → Reader ρ
  | _, [], r => pure r
  | index, field :: rest, r => do
    if ← hasElement (index == 0) then
      let r ← field.read r
      readElements expected (index + 1) rest r
    else reject (.invalidLength index expected)

/-- Whether a map goes on, in which case a key follows. -/
def hasMember (isFirst : Bool) : Reader Bool := do
  let b ← requireToken
  if b == '}'.toUInt8 then pure false
  else
    if !isFirst then
      if b != ','.toUInt8 then throw .malformed
      advance
    let quote ← requireToken
    if quote != '\x22'.toUInt8 then throw .malformed
    advance
    pure true

/-- Reads fields from the members of a map, in any order. Keys that no field has are
    passed over with their values. Every member takes something off the text, so a
    limit of its length is never reached. -/
def readMembers (fields : List (Field ρ)) : (limit : Nat) → (isFirst : Bool) → ρ → Reader ρ
  | 0, _, _ => throw .malformed
  | limit + 1, isFirst, r => do
    if ← hasMember isFirst then
      let name ← readString
      let field? := fields.find? (·.name == name)
      match field? with
      | some field => if field.isSet r then reject (.duplicateField name)
      | none => pure ()
      let colon ← requireToken
      if colon != ':'.toUInt8 then throw .malformed
      advance
      let r ← match field? with
        | some field => field.read r
        | none => do
          skipValue
          pure r
      readMembers fields limit false r
    else pure r

/-- Reads the mark that ends a sequence or map. -/
def readClose (mark : Char) : Reader Unit := do
  let b ← requireToken
  if b != mark.toUInt8 then throw .malformed
  advance

def Record.make (record : Record ρ α) (r : ρ) : Reader α :=
  match record.finish r with
  | .ok a => pure a
  | .error reason => reject reason

/-- Reads a record from a map, or from a sequence of its fields in order. -/
def Record.read (record : Record ρ α) : Reader α := do
  let b ← requireToken
  if b == '['.toUInt8 then
    advance
    let expected := s!"{record.title} with {record.fields.length} elements"
    let r ← readElements expected 0 record.fields record.empty
    let a ← record.make r
    readClose ']'
    pure a
  else if b == '{'.toUInt8 then
    advance
    let limit := (← get).length + 1
    let r ← readMembers record.fields limit true record.empty
    let a ← record.make r
    readClose '}'
    pure a
  else rejectType record.title

end RiscvSemantics.Json
