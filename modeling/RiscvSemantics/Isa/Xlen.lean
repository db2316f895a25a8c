import RiscvSemantics.Fault

namespace RiscvSemantics

/-- A register width that a hart can have. -/
structure Xlen where
  bits : Nat
  bits_ne_zero : bits ≠ 0
  bits_le : bits ≤ 64

namespace Xlen

def ofNat (bits : Nat) : Except Fault Xlen :=
  if h : bits ≠ 0 ∧ bits ≤ 64 then .ok ⟨bits, h.1, h.2⟩ else .error (.unsupportedXlen bits)

/-- The register width of RV32. -/
def rv32 : Xlen := ⟨32, by decide, by decide⟩

end Xlen

end RiscvSemantics
