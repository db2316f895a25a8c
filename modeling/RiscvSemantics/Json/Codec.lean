import RiscvSemantics.Bits.Basic
import RiscvSemantics.Json.Error

namespace RiscvSemantics

open Json

/-- How structures of whole numbers are written and read. While a text is read, `τ` is what is left of
    it; `ε` is why it cannot be read. -/
structure Json.Codec (τ ε : Type) where
  /-- The text of a structure from its fields. -/
  write : (title : String) → (fields : List (String × Nat)) → String
  start : String → τ
  /-- Reads a structure with a width, which fits 32 bits, and a value, which fits 64. -/
  readParts : StateT τ (Except ε) (Nat × Nat)
  /-- Checks that nothing is left. -/
  finish : StateT τ (Except ε) Unit
  /-- The error of a structure that could be read but is not acceptable. -/
  refuse : Rejection → ε

namespace Bits

variable {τ ε : Type}

/-- A width and a value as a vector, if the value fits the width; it is not cut. -/
def ofParts (width value : Nat) : Except Rejection Bits :=
  if h : width ≤ 64 then
    let a : Bits := ⟨width, BitVec.ofNat width value, h⟩
    if a.toNat = value then .ok a
    else .error (.invalidValue (.unsigned value) s!"a value that fits in {width} bits")
  else .error (.invalidValue (.unsigned width) "a width of at most 64 bits")

/-- What a vector is written as: its width, then its value. -/
def serialize (codec : Codec τ ε) (a : Bits) : String :=
  codec.write "BitVector" [("width", a.width), ("bits", a.toNat)]

/-- Reads a vector. -/
def reader (codec : Codec τ ε) : StateT τ (Except ε) Bits := do
  let (width, value) ← codec.readParts
  match ofParts width value with
  | .ok a => pure a
  | .error reason => throw (codec.refuse reason)

/-- Reads a whole text as a vector. -/
def deserialize (codec : Codec τ ε) (text : String) : Except ε Bits := do
  let (a, rest) ← (reader codec).run (codec.start text)
  let _ ← codec.finish.run rest
  pure a

end Bits

end RiscvSemantics
