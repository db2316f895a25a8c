import RiscvSemantics.Bits.Basic

namespace RiscvSemantics.Bits

/-- Puts `high` above `low`. -/
def concat (high low : Bits) : Except Fault Bits :=
  if h : high.width + low.width ≤ 64 then
    .ok ⟨high.width + low.width, high.value ++ low.value, h⟩
  else
    .error .concatenationTooWide

/-- The `width` bits from position `start` up; positions beyond the vector read
    as zero. -/
def extract (a : Bits) (start width : Nat) : Except Fault Bits :=
  if h : width ≤ 64 then .ok ⟨width, a.value.extractLsb' start width, h⟩ else .error .vectorTooWide

/-- The low `width` bits of a vector that has at least so many. -/
def truncate (a : Bits) (width : Nat) : Except Fault Bits :=
  if h : width ≤ a.width then .ok ⟨width, a.value.setWidth width, Nat.le_trans h a.width_le⟩
  else .error .wideningTruncation

/-- Widens with zeros, which keeps the unsigned value. -/
def zeroExtend (a : Bits) (width : Nat) : Except Fault Bits :=
  if width < a.width then .error .narrowingZeroExtension
  else if h : width ≤ 64 then .ok ⟨width, a.value.setWidth width, h⟩
  else .error .vectorTooWide

/-- Widens with copies of the top bit, which keeps the signed value. -/
def signExtend (a : Bits) (width : Nat) : Except Fault Bits :=
  if width < a.width then .error .narrowingSignExtension
  else if h : width ≤ 64 then .ok ⟨width, a.value.signExtend width, h⟩
  else .error .vectorTooWide

end RiscvSemantics.Bits
