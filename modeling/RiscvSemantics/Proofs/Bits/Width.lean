import RiscvSemantics.Bits.Slice
import RiscvSemantics.Formula.Operands
import RiscvSemantics.Formula.Operator

namespace RiscvSemantics

namespace Bits

theorem eq_mk_toNat {a : Bits} {width : Nat} (hwidth : a.width = width) (hle : width ≤ 64) :
    a = ⟨width, BitVec.ofNat width a.toNat, hle⟩ := by
  subst hwidth
  refine Bits.ext rfl ?_
  rw [toNat_mk, toNat, BitVec.ofNat_toNat, BitVec.setWidth_eq]

theorem width_lt_word (a : Bits) : a.width < UInt32.size :=
  Nat.lt_of_le_of_lt a.width_le (by decide)

theorem toNat_lt_word (a : Bits) : a.toNat < UInt64.size :=
  Nat.lt_of_lt_of_le a.value.isLt (Nat.pow_le_pow_right (by decide) a.width_le)

theorem extract_ok (a : Bits) (start : Nat) {width : Nat} (hwidth : width ≤ 64) :
    ∃ c, a.extract start width = .ok c ∧ c.width = width :=
  ⟨_, dif_pos hwidth, rfl⟩

theorem concat_ok {high low : Bits} (hwidth : high.width + low.width ≤ 64) :
    ∃ c, high.concat low = .ok c ∧ c.width = high.width + low.width :=
  ⟨_, dif_pos hwidth, rfl⟩

theorem zeroExtend_ok {a : Bits} {width : Nat} (hfits : width ≤ 64) (hwidens : a.width ≤ width) :
    ∃ c, a.zeroExtend width = .ok c ∧ c.width = width := by
  refine ⟨⟨width, a.value.setWidth width, hfits⟩, ?_, rfl⟩
  rw [zeroExtend, if_neg (Nat.not_lt.mpr hwidens), dif_pos hfits]

theorem signExtend_ok {a : Bits} {width : Nat} (hfits : width ≤ 64) (hwidens : a.width ≤ width) :
    ∃ c, a.signExtend width = .ok c ∧ c.width = width := by
  refine ⟨⟨width, a.value.signExtend width, hfits⟩, ?_, rfl⟩
  rw [signExtend, if_neg (Nat.not_lt.mpr hwidens), dif_pos hfits]

/-- An address advances as if the distance were added to it. -/
theorem add_ofNat (a : Bits) (n : Nat) : (ofNat a.width n).bind a.add = .ok (a.advance n) := by
  have hstep : ofNat a.width n = .ok ⟨a.width, BitVec.ofNat a.width n, a.width_le⟩ := dif_pos a.width_le
  have hsum : a.value + BitVec.ofNat a.width n = BitVec.ofNat a.width (a.value.toNat + n) := by
    rw [BitVec.ofNat_add, BitVec.ofNat_toNat, BitVec.setWidth_eq]
  rw [hstep, advance, ← hsum]
  exact combine_mk .addition (fun x y => x + y) a.value _ a.width_le a.width_le

theorem extract_byte (a : Bits) : a.extract 0 8 = .ok (.ofByte (a.value.setWidth 8)) := by
  have hlow : a.value.extractLsb' 0 8 = a.value.setWidth 8 := by
    apply BitVec.eq_of_toNat_eq
    rw [BitVec.extractLsb'_toNat, BitVec.toNat_setWidth, Nat.shiftRight_zero]
  rw [← hlow]
  rfl

end Bits

/-- A layout has a value for every field that it carries. -/
theorem Operands.lt_length_of_position? {operands : Operands} {field : Field} {index : Nat}
    (hposition : operands.format.position? field = some index) : index < operands.values.length := by
  obtain ⟨hlt, _⟩ := List.idxOf?_eq_some_iff.mp hposition
  rwa [operands.length_values]

/-- The width of what an operator gives for operands of which the left one is
    `width` bits wide: comparisons give one bit. -/
def BinaryOp.resultWidth (op : BinaryOp) (width : Nat) : Nat :=
  match op with
  | .equal | .lessUnsigned | .lessSigned => 1
  | _ => width

/-- An operator gives a value unless it wants equal widths and they differ. -/
theorem BinaryOp.apply_ok (op : BinaryOp) {a b : Bits}
    (hwidth : op.needsEqualWidths = true → a.width = b.width) :
    ∃ c, op.apply a b = .ok c ∧ c.width = op.resultWidth a.width := by
  cases op with
  | shiftLeft => exact ⟨_, rfl, Bits.width_shiftLeft a b.toNat⟩
  | shiftRight => exact ⟨_, rfl, Bits.width_shiftRight a b.toNat⟩
  | shiftRightSigned => exact ⟨_, rfl, Bits.width_shiftRightSigned a b.toNat⟩
  | rotate => exact ⟨_, rfl, Bits.width_rotate a b.toNat⟩
  | equal | lessUnsigned | lessSigned => exact ⟨_, dif_pos (hwidth rfl), rfl⟩
  | and | or | xor | add | sub | mul | mulHighSigned | mulHighUnsigned | mulHighSignedUnsigned
  | divUnsigned | divSigned | remUnsigned | remSigned => exact ⟨_, dif_pos (hwidth rfl), rfl⟩

/-- An operator that wants equal widths faults if they differ. -/
theorem BinaryOp.apply_error (op : BinaryOp) {a b : Bits} (hneeds : op.needsEqualWidths = true)
    (hne : a.width ≠ b.width) : ∃ fault, op.apply a b = .error fault := by
  cases op with
  | shiftLeft | shiftRight | shiftRightSigned | rotate => cases hneeds
  | equal | lessUnsigned | lessSigned => exact ⟨_, dif_neg hne⟩
  | and | or | xor | add | sub | mul | mulHighSigned | mulHighUnsigned | mulHighSignedUnsigned
  | divUnsigned | divSigned | remUnsigned | remSigned => exact ⟨_, dif_neg hne⟩

/-- These are the only faults of an operator. -/
theorem BinaryOp.apply_error_iff (op : BinaryOp) (a b : Bits) :
    (∃ fault, op.apply a b = .error fault) ↔ op.needsEqualWidths = true ∧ a.width ≠ b.width := by
  constructor
  · rintro ⟨fault, hfault⟩
    refine Decidable.byContradiction fun hnot => ?_
    obtain ⟨c, hc, _⟩ := op.apply_ok (a := a) (b := b) fun hneeds =>
      Decidable.byContradiction fun hne => hnot ⟨hneeds, hne⟩
    rw [hc] at hfault
    cases hfault
  · rintro ⟨hneeds, hne⟩
    exact op.apply_error hneeds hne

/-- What an operator that wants equal widths does with them. -/
def BinaryOp.combination? : BinaryOp → Option Combination
  | .and => some .conjunction
  | .or => some .disjunction
  | .xor => some .exclusion
  | .add => some .addition
  | .sub => some .subtraction
  | .mul | .mulHighSigned | .mulHighUnsigned | .mulHighSignedUnsigned => some .multiplication
  | .divUnsigned | .divSigned => some .division
  | .remUnsigned | .remSigned => some .remainder
  | .equal | .lessUnsigned | .lessSigned => some .comparison
  | .shiftLeft | .shiftRight | .shiftRightSigned | .rotate => none

theorem BinaryOp.isSome_combination? (op : BinaryOp) : op.combination?.isSome = op.needsEqualWidths := by
  cases op <;> rfl

/-- The fault says what was to be done and names both widths. -/
theorem BinaryOp.apply_of_ne {op : BinaryOp} {combination : Combination}
    (hop : op.combination? = some combination) {a b : Bits} (hne : a.width ≠ b.width) :
    op.apply a b = .error (.unequalWidths combination a.width b.width) := by
  cases op <;> cases hop <;> exact dif_neg hne

/-- The width of what an operator gives for operands of two widths, or its fault. -/
def BinaryOp.width (op : BinaryOp) (left right : Nat) : Except Fault Nat :=
  match op.combination? with
  | none => .ok (op.resultWidth left)
  | some combination =>
    if left = right then .ok (op.resultWidth left) else .error (.unequalWidths combination left right)

theorem BinaryOp.map_width_apply (op : BinaryOp) (a b : Bits) :
    (op.apply a b).map Bits.width = op.width a.width b.width := by
  have hsome := op.isSome_combination?
  rw [width]
  cases hop : op.combination? with
  | none =>
    obtain ⟨c, hc, hwidth⟩ := op.apply_ok (a := a) (b := b) (by simp [← hsome, hop])
    rw [hc]
    exact congrArg Except.ok hwidth
  | some combination =>
    dsimp only
    by_cases h : a.width = b.width
    · obtain ⟨c, hc, hwidth⟩ := op.apply_ok fun _ => h
      rw [hc, if_pos h]
      exact congrArg Except.ok hwidth
    · rw [op.apply_of_ne hop h, if_neg h]
      rfl

theorem UnaryOp.width_apply (op : UnaryOp) (a : Bits) : (op.apply a).width = a.width := by
  cases op <;> rfl

end RiscvSemantics
