import RiscvSemantics.Bits.Arithmetic
import RiscvSemantics.Image.Basic
import RiscvSemantics.Machine.Basic

namespace RiscvSemantics.Image

variable {σ ε : Type} [Machine σ ε]

open Interpretation

/-- The bytes of a word, the lowest first. -/
def bytesOf (word : BitVec 32) : List (BitVec 8) :=
  [word.extractLsb' 0 8, word.extractLsb' 8 8, word.extractLsb' 16 8, word.extractLsb' 24 8]

/-- Stores bytes one behind the other and answers with the address behind the last. -/
@[specialize] def storeBytes : List (BitVec 8) → Bits → Action σ Bits
  | [], address => pure address
  | byte :: rest, address => do
    Machine.setMemory address (Bits.ofByte byte)
    storeBytes rest (address.advance 1)

/-- Stores so many copies of a row of bytes. -/
@[specialize] def storeCopies (bytes : List (BitVec 8)) : (count : Nat) → Bits → Action σ Bits
  | 0, address => pure address
  | count + 1, address => do
    let next ← storeBytes bytes address
    storeCopies bytes count next

/-- Reads and stores one line after the other; `number` is the number of the first.
    Answers with the number of bytes stored, on top of those stored before. It is assumed that
    fewer than `2 ^ 64` are stored, so that a word can hold their number. -/
@[specialize] def loadLines : (number : Nat) → List (List UInt8) → (address : Bits) →
    (stored : Nat) → Interpretation σ (Error ε) Nat
  | _, [], _, stored => pure stored
  | number, line :: rest, address, stored => do
    let text ← checked (decodeLine line)
    match ← checked (parseLine number text) with
    | none => loadLines (number + 1) rest address stored
    | some copies => do
      let next ← act (storeCopies (bytesOf copies.word) copies.count address)
      loadLines (number + 1) rest next (stored + 4 * copies.count)

/-- Stores an image from an address on and answers with the number of bytes. A trap
    does not keep the rest of the image from being stored, but it fails the load. -/
@[specialize] def load (base : Nat) (file : ByteArray) : Interpretation σ (Error ε) Nat :=
  match lines file.data.toList with
  | [] => throw (.error .noLines)
  | first :: rest => do
    let text ← checked (decodeLine first)
    if Text.trim text ≠ header then throw (.error .badHeader)
    let stored ← loadLines 2 rest (Machine.word σ base) 0
    match Machine.pending (← get) with
    | some cause => throw (.error (.trapped cause stored base))
    | none => pure stored

end RiscvSemantics.Image
