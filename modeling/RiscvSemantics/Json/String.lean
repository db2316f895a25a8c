import RiscvSemantics.Json.Scan

namespace RiscvSemantics.Json

/-- The bytes that follow, without some at their front. -/
abbrev Rest (bytes : List UInt8) := { rest : List UInt8 // rest.length ≤ bytes.length }

/-- The value of a digit in base 16. -/
def hexDigit? (b : UInt8) : Option Nat :=
  Text.digitValue? 16 (Char.ofNat b.toNat)

/-- Reads the four digits of an escape by number. -/
def readHex4 : (bytes : List UInt8) → Except Error (Nat × Rest bytes)
  | a :: b :: c :: d :: rest =>
    match hexDigit? a, hexDigit? b, hexDigit? c, hexDigit? d with
    | some a', some b', some c', some d' =>
      .ok (((a' * 16 + b') * 16 + c') * 16 + d', ⟨rest, Nat.le_add_right _ 4⟩)
    | _, _, _, _ => .error .malformed
  | _ => .error .truncated

/-- Reads the second half of a character beyond the basic plane, which is an escape
    too, and puts the two halves together. -/
def readLowSurrogate (high : Nat) : (bytes : List UInt8) → Except Error (Char × Rest bytes)
  | [] => .error .truncated
  | backslash :: others =>
    if backslash != '\\'.toUInt8 then .error .malformed
    else
      match others with
      | [] => .error .truncated
      | u :: digits =>
        if u != 'u'.toUInt8 then .error .malformed
        else do
          let (low, ⟨rest, h⟩) ← readHex4 digits
          if 0xdc00 ≤ low ∧ low ≤ 0xdfff then
            let c := Char.ofNat ((high - 0xd800) * 0x400 + (low - 0xdc00) + 0x10000)
            .ok (c, ⟨rest, Nat.le_succ_of_le (Nat.le_succ_of_le h)⟩)
          else .error .malformed

/-- Reads an escape by number behind its letter. Halves of characters have to come in
    pairs. -/
def readUnicode (bytes : List UInt8) : Except Error (Char × Rest bytes) := do
  let (code, ⟨rest, h⟩) ← readHex4 bytes
  if 0xd800 ≤ code ∧ code ≤ 0xdbff then
    let (c, ⟨rest', h'⟩) ← readLowSurrogate code rest
    .ok (c, ⟨rest', Nat.le_trans h' h⟩)
  else if 0xdc00 ≤ code ∧ code ≤ 0xdfff then .error .malformed
  else .ok (Char.ofNat code, ⟨rest, h⟩)

/-- The character of an escape by one letter. -/
def simpleEscape? (letter : UInt8) : Option Char :=
  let table := [('\x22', '\x22'), ('\\', '\\'), ('/', '/'), ('b', '\x08'), ('f', '\x0c'), ('n', '\n'),
    ('r', '\x0d'), ('t', '\t')]
  (table.find? fun (c, _) => c.toUInt8 == letter).map (·.2)

/-- Reads an escape behind its backslash into bytes. -/
def readEscape : (bytes : List UInt8) → Except Error (List UInt8 × Rest bytes)
  | [] => .error .truncated
  | letter :: others =>
    match simpleEscape? letter with
    | some c => .ok ((String.singleton c).toUTF8.data.toList, ⟨others, Nat.le_succ _⟩)
    | none =>
      if letter != 'u'.toUInt8 then .error .malformed
      else do
        let (c, ⟨rest, h⟩) ← readUnicode others
        .ok ((String.singleton c).toUTF8.data.toList, ⟨rest, Nat.le_succ_of_le h⟩)

/-- Passes over an escape behind its backslash. Its number may be half a character. -/
def skipEscape : (bytes : List UInt8) → Except Error (List UInt8 × Rest bytes)
  | [] => .error .truncated
  | letter :: others =>
    if (simpleEscape? letter).isSome then .ok ([], ⟨others, Nat.le_succ _⟩)
    else if letter != 'u'.toUInt8 then .error .malformed
    else do
      let (_, ⟨rest, h⟩) ← readHex4 others
      .ok ([], ⟨rest, Nat.le_succ_of_le h⟩)

/-- Reads up to the closing quotation mark. Control characters have to be escaped. -/
def readQuoted (escape : (bytes : List UInt8) → Except Error (List UInt8 × Rest bytes)) :
    List UInt8 → Except Error (List UInt8 × List UInt8)
  | [] => .error .truncated
  | b :: others =>
    if b == '\x22'.toUInt8 then .ok ([], others)
    else if b < 0x20 then .error .malformed
    else if b == '\\'.toUInt8 then do
      let (bytes, ⟨rest, _h⟩) ← escape others
      let (content, left) ← readQuoted escape rest
      .ok (bytes ++ content, left)
    else do
      let (content, left) ← readQuoted escape others
      .ok (b :: content, left)
termination_by bytes => bytes.length
decreasing_by
  all_goals
    simp only [List.length_cons]
    omega

/-- Reads a string behind its opening quotation mark. -/
def readString : Reader String := do
  let (content, left) ← (readQuoted readEscape (← get) : Except Error _)
  set left
  match String.fromUTF8? ⟨content.toArray⟩ with
  | some s => pure s
  | none => throw .malformed

/-- Passes over a string behind its opening quotation mark. -/
def skipString : Reader Unit := do
  let (_, left) ← (readQuoted skipEscape (← get) : Except Error _)
  set left

end RiscvSemantics.Json
