import RiscvSemantics.Formula.Basic
import RiscvSemantics.Isa.Extensions

namespace RiscvSemantics

/-- An instruction that a catalog knows. -/
structure Decoded (ω : Type) where
  opcode : ω
  operands : Operands
deriving DecidableEq

/-- An instruction set with opcodes of type `ω` whose formulas raise causes of type
    `ε`: which words are instructions, and what each opcode does. -/
structure Catalog (ω ε : Type) where
  decode : BitVec 32 → Extensions → Option (Decoded ω)
  semantics : ω → Formula ε

/-- One line of a catalog that is given as a table. -/
structure Catalog.Entry (ε : Type) where
  word : BitVec 32
  operands : Operands
  formula : Formula ε

/-- The catalog of a table. A word is the first entry with that very word, whatever
    the extensions, and the opcode is the position of the entry. -/
def Catalog.ofEntries {ε : Type} (entries : Array (Entry ε)) : Catalog (Fin entries.size) ε where
  decode word _ :=
    (entries.findFinIdx? (·.word == word)).map fun i => ⟨i, entries[i].operands⟩
  semantics i := entries[i].formula

end RiscvSemantics
