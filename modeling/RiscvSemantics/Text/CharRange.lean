namespace RiscvSemantics.Text

/-- Whether a character lies in one of the ranges, both ends of which count. -/
def inRanges (ranges : Array (Nat × Nat)) (c : Char) : Bool :=
  ranges.any fun (first, last) => first ≤ c.toNat && c.toNat ≤ last

end RiscvSemantics.Text
