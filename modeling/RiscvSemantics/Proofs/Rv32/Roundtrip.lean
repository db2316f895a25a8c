import RiscvSemantics.Proofs.Rv32.Layout

namespace RiscvSemantics.Rv32

variable {opcode : Opcode} {w : Word} {operands : Operands} {format : Format}

theorem Word.widths_operands (w : Word) (format : Format) :
    (w.operands format).values.map Bits.width = operandWidths format := by
  cases format <;> rfl

theorem Word.format_operands (w : Word) (format : Format) : (w.operands format).format = format := by
  cases format <;> rfl

theorem Opcode.format_of_isImmediateShift (hshift : opcode.isImmediateShift = true) : opcode.format = .I := by
  cases opcode <;> first | rfl | cases hshift

theorem totalWidth_pieceWidths (format : Format) : Piece.totalWidth (pieceWidths format) = 32 := by
  cases format <;> rfl

theorem Opcode.width_pieces (opcode : Opcode) (operands : Operands) :
    (opcode.pieces operands).map Piece.width = pieceWidths opcode.format := by
  unfold pieces
  cases opcode.format <;> rfl

/-- The pieces of an offset are those of the word, in another order. -/
theorem Word.unpack_immS (w : Word) :
    Piece.unpack [5, 7] w.immS.toNat = [⟨w.toNat >>> 7 % 32, 5⟩, ⟨w.toNat >>> 25 % 128, 7⟩] := by
  rw [toNat_immS]
  refine Piece.unpack_pack [_, _] ?_
  simp only [Piece.fit_cons, Piece.fit_nil, and_true]
  exact ⟨Piece.mod_lt _ 5, Piece.mod_lt _ 7⟩

theorem Word.unpack_immB (w : Word) :
    Piece.unpack [1, 4, 6, 1, 1] w.immB.toNat =
      [⟨0, 1⟩, ⟨w.toNat >>> 8 % 16, 4⟩, ⟨w.toNat >>> 25 % 64, 6⟩, ⟨w.toNat >>> 7 % 2, 1⟩,
        ⟨w.toNat >>> 31 % 2, 1⟩] := by
  rw [toNat_immB]
  refine Piece.unpack_pack [_, _, _, _, _] ?_
  simp only [Piece.fit_cons, Piece.fit_nil, and_true]
  exact ⟨Nat.two_pos, Piece.mod_lt _ 4, Piece.mod_lt _ 6, Piece.mod_lt _ 1, Piece.mod_lt _ 1⟩

theorem Word.unpack_immJ (w : Word) :
    Piece.unpack [1, 10, 1, 8, 1] w.immJ.toNat =
      [⟨0, 1⟩, ⟨w.toNat >>> 21 % 1024, 10⟩, ⟨w.toNat >>> 20 % 2, 1⟩, ⟨w.toNat >>> 12 % 256, 8⟩,
        ⟨w.toNat >>> 31 % 2, 1⟩] := by
  rw [toNat_immJ]
  refine Piece.unpack_pack [_, _, _, _, _] ?_
  simp only [Piece.fit_cons, Piece.fit_nil, and_true]
  exact ⟨Nat.two_pos, Piece.mod_lt _ 10, Piece.mod_lt _ 1, Piece.mod_lt _ 8, Piece.mod_lt _ 1⟩

/-- A word that has the fixed bits of an instruction is made of what the instruction is made
    of when it has the operands that are read from the word. -/
theorem pieces_operands (hrecognizes : opcode.Recognizes w.toNat) :
    opcode.pieces (w.operands opcode.format) = Piece.unpack (pieceWidths opcode.format) w.toNat := by
  obtain ⟨hmajor, hminor, hupper⟩ := hrecognizes
  have himmS := w.unpack_immS
  have himmB := w.unpack_immB
  have himmJ := w.unpack_immJ
  rw [Opcode.hasMinorCode] at hminor
  rw [Opcode.hasUpperCode] at hupper
  unfold Opcode.pieces
  cases hformat : opcode.format <;> rw [hformat] at hminor hupper <;>
    simp only [pieceWidths, Piece.unpack, ← Nat.shiftRight_add, Nat.reduceAdd, Nat.reduceShiftLeft,
      List.cons.injEq, Piece.mk.injEq, and_true] at himmS himmB himmJ ⊢
  case R =>
    exact ⟨hmajor.symm, w.toNat_rd, (hminor rfl).symm, w.toNat_rs1, w.toNat_rs2, (hupper rfl).symm⟩
  case I =>
    exact ⟨hmajor.symm, w.toNat_rd, (hminor rfl).symm, w.toNat_rs1, w.toNat_immI⟩
  case S =>
    obtain ⟨himm0, himm5⟩ := himmS
    exact ⟨hmajor.symm, himm0, (hminor rfl).symm, w.toNat_rs1, w.toNat_rs2, himm5⟩
  case B =>
    obtain ⟨_, himm1, himm5, himm11, himm12⟩ := himmB
    exact ⟨hmajor.symm, himm11, himm1, (hminor rfl).symm, w.toNat_rs1, w.toNat_rs2, himm5, himm12⟩
  case U =>
    exact ⟨hmajor.symm, w.toNat_rd, w.toNat_immU⟩
  case J =>
    obtain ⟨_, himm1, himm11, himm12, himm20⟩ := himmJ
    exact ⟨hmajor.symm, w.toNat_rd, himm12, himm11, himm1, himm20⟩

/-- What is read from a word that has the fixed bits of an instruction is well formed. -/
theorem carries_operands (hrecognizes : opcode.Recognizes w.toNat) :
    opcode.Carries (w.operands opcode.format) := by
  refine ⟨w.format_operands _, w.widths_operands _, ?_, ?_⟩
  · rintro (hformat | hformat)
    · rw [hformat]
      exact congrArg Piece.value (List.cons.inj w.unpack_immB).1
    · rw [hformat]
      exact congrArg Piece.value (List.cons.inj w.unpack_immJ).1
  · intro hshift
    have hupper := hrecognizes.upper (by rw [Opcode.hasUpperCode, hshift, Bool.or_true])
    rw [Opcode.format_of_isImmediateShift hshift, ← hupper]
    change w.immI.toNat >>> 5 = _
    rw [w.toNat_immI]
    omega

/-- How many bits the field of an instruction has; none if its layout lacks the field. -/
def fieldWidth (format : Format) (field : Field) : Nat :=
  ((format.position? field).bind ((operandWidths format)[·]?)).getD 0

namespace Opcode.Carries

section Fit

variable (hcarries : opcode.Carries operands)

include hcarries

theorem fieldNumber_lt (field : Field) :
    fieldNumber operands field < 1 <<< fieldWidth opcode.format field := by
  have hvalues (index : Nat) :
      (operandWidths opcode.format)[index]? = operands.values[index]?.map Bits.width := by
    rw [← hcarries.widths, List.getElem?_map]
  rw [fieldNumber, fieldWidth, Operands.get?, hcarries.format]
  cases opcode.format.position? field with
  | none => exact Nat.zero_lt_one
  | some index =>
    simp only [Option.bind_some, hvalues]
    cases operands.values[index]? with
    | none => exact Nat.zero_lt_one
    | some v =>
      simp only [Option.map_some, Option.getD_some, Nat.shiftLeft_eq, Nat.one_mul]
      exact v.value.isLt

theorem register_lt (field : Field) (hfield : field ≠ .imm) : fieldNumber operands field < 1 <<< 5 := by
  have hwidth : ∀ format, fieldWidth format field ≤ 5 := by
    intro format
    cases format <;> cases field <;> first | decide | exact absurd rfl hfield
  have hlt := hcarries.fieldNumber_lt field
  rw [Nat.shiftLeft_eq, Nat.one_mul] at hlt ⊢
  exact Nat.lt_of_lt_of_le hlt (Nat.pow_le_pow_right (by decide) (hwidth _))

/-- Every piece of an instruction fits. -/
theorem fit_pieces : Piece.Fit (opcode.pieces operands) := by
  obtain ⟨_, hmajor, hminor, hupper⟩ := opcode.codes_bounds
  have hrd := hcarries.register_lt .rd nofun
  have hrs1 := hcarries.register_lt .rs1 nofun
  have hrs2 := hcarries.register_lt .rs2 nofun
  have himm := hcarries.fieldNumber_lt .imm
  unfold pieces
  cases hformat : opcode.format <;> rw [hformat] at himm <;>
    simp only [Piece.fit_cons, Piece.fit_nil, and_true]
  case R => exact ⟨hmajor, hrd, hminor, hrs1, hrs2, hupper⟩
  case I => exact ⟨hmajor, hrd, hminor, hrs1, himm⟩
  case S => exact ⟨hmajor, Piece.mod_lt _ 5, hminor, hrs1, hrs2, Piece.mod_lt _ 7⟩
  case B =>
    exact ⟨hmajor, Piece.mod_lt _ 1, Piece.mod_lt _ 4, hminor, hrs1, hrs2, Piece.mod_lt _ 6, Piece.mod_lt _ 1⟩
  case U => exact ⟨hmajor, hrd, himm⟩
  case J => exact ⟨hmajor, hrd, Piece.mod_lt _ 8, Piece.mod_lt _ 1, Piece.mod_lt _ 10, Piece.mod_lt _ 1⟩

end Fit

end Opcode.Carries

theorem toNat_field {field : Field} {width : Nat} (hlt : fieldNumber operands field < 1 <<< width) :
    (BitVec.ofNat width (((operands.get? field).map Bits.toNat).getD 0)).toNat =
      fieldNumber operands field := by
  rw [Nat.shiftLeft_eq, Nat.one_mul] at hlt
  rw [← fieldNumber, BitVec.toNat_ofNat, Nat.mod_eq_of_lt hlt]

theorem Opcode.toNat_low (opcode : Opcode) :
    opcode.pattern.major.toNat <<< 2 + BitVec.toNat 0b11#2 = opcode.majorCode := by
  obtain ⟨hfull, hlt, _⟩ := opcode.codes_bounds
  rw [opcode.pattern_eq.1, BitVec.toNat_ofNat, BitVec.toNat_ofNat]
  omega

theorem Opcode.toNat_funct3 (hhas : opcode.hasMinorCode = true) :
    (opcode.pattern.funct3.getD 0).toNat = opcode.minorCode := by
  obtain ⟨_, _, hlt, _⟩ := opcode.codes_bounds
  rw [opcode.pattern_eq.2.1, if_pos hhas, Option.getD_some, BitVec.toNat_ofNat, Nat.mod_eq_of_lt hlt]

theorem Opcode.toNat_funct7 (hhas : opcode.hasUpperCode = true) :
    (opcode.pattern.funct7.getD 0).toNat = opcode.upperCode := by
  obtain ⟨_, _, _, hlt⟩ := opcode.codes_bounds
  rw [opcode.pattern_eq.2.2, if_pos hhas, Option.getD_some, BitVec.toNat_ofNat, Nat.mod_eq_of_lt hlt]

/-- The encoding writes an instruction in its layout. -/
theorem toNat_encode (hcarries : opcode.Carries operands) :
    (encode opcode operands).toNat = opcode.layout operands := by
  have hrd := toNat_field (hcarries.register_lt .rd nofun)
  have hrs1 := toNat_field (hcarries.register_lt .rs1 nofun)
  have hrs2 := toNat_field (hcarries.register_lt .rs2 nofun)
  have himm := toNat_field (hcarries.fieldNumber_lt .imm)
  have hlow := opcode.toNat_low
  have hfunct3 := opcode.toNat_funct3
  have hfunct7 := opcode.toNat_funct7
  rw [Opcode.hasMinorCode] at hfunct3
  rw [Opcode.hasUpperCode] at hfunct7
  unfold encode Opcode.layout Opcode.pieces
  cases hformat : opcode.format with
  | R =>
    rw [hformat] at hfunct3 hfunct7
    simp only [toNat_append]
    simp only [Piece.pack, Nat.zero_shiftLeft, Nat.zero_add, Nat.reduceAdd, hlow, hrd, hrs1,
      hrs2, hfunct3 rfl, hfunct7 rfl]
  | I =>
    rw [hformat] at hfunct3 himm
    change BitVec.toNat (BitVec.ofNat 12 _) = _ at himm
    simp only [toNat_append]
    simp only [Piece.pack, Nat.zero_shiftLeft, Nat.zero_add, Nat.reduceAdd, hlow, hrd, hrs1,
      hfunct3 rfl, himm]
  | S =>
    rw [hformat] at hfunct3 himm
    change BitVec.toNat (BitVec.ofNat 12 _) = _ at himm
    simp only [toNat_append]
    simp only [Piece.pack, Nat.zero_shiftLeft, Nat.zero_add, Nat.reduceAdd, hlow, hrs1, hrs2,
      hfunct3 rfl, BitVec.extractLsb'_toNat, himm, Nat.shiftRight_zero, Nat.reducePow]
  | B =>
    rw [hformat] at hfunct3 himm
    change BitVec.toNat (BitVec.ofNat 13 _) = _ at himm
    simp only [toNat_append]
    simp only [Piece.pack, Nat.zero_shiftLeft, Nat.zero_add, Nat.reduceAdd, hlow, hrs1, hrs2,
      hfunct3 rfl, BitVec.extractLsb'_toNat, himm, Nat.reducePow]
  | U =>
    rw [hformat] at himm
    change BitVec.toNat (BitVec.ofNat 20 _) = _ at himm
    simp only [toNat_append]
    simp only [Piece.pack, Nat.zero_shiftLeft, Nat.zero_add, Nat.reduceAdd, hlow, hrd, himm]
  | J =>
    rw [hformat] at himm
    change BitVec.toNat (BitVec.ofNat 21 _) = _ at himm
    simp only [toNat_append]
    simp only [Piece.pack, Nat.zero_shiftLeft, Nat.zero_add, Nat.reduceAdd, hlow, hrd,
      BitVec.extractLsb'_toNat, himm, Nat.reducePow]

/-- The word of an instruction, cut as its layout is, gives back what the instruction is
    made of. -/
theorem unpack_encode (hcarries : opcode.Carries operands) :
    Piece.unpack (pieceWidths opcode.format) (encode opcode operands).toNat = opcode.pieces operands := by
  rw [toNat_encode hcarries, Opcode.layout, ← opcode.width_pieces operands]
  exact Piece.unpack_pack _ hcarries.fit_pieces

theorem Opcode.isImmediateShift_of_hasUpperCode (hhas : opcode.hasUpperCode = true)
    (hne : opcode.format ≠ .R) : opcode.isImmediateShift = true := by
  rw [hasUpperCode, Bool.or_eq_true, decide_eq_true_eq] at hhas
  exact hhas.resolve_left hne

theorem recognizes_encode (hcarries : opcode.Carries operands) :
    opcode.Recognizes (encode opcode operands).toNat := by
  have hunpack := unpack_encode hcarries
  generalize (encode opcode operands).toNat = n at hunpack ⊢
  have hnone (hne : opcode.format ≠ .I) (hne' : opcode.format ≠ .R)
      (hhas : opcode.hasUpperCode = true) : False :=
    hne (Opcode.format_of_isImmediateShift (Opcode.isImmediateShift_of_hasUpperCode hhas hne'))
  unfold Opcode.pieces at hunpack
  cases hformat : opcode.format <;> rw [hformat] at hunpack hnone <;>
    simp only [pieceWidths, Piece.unpack, ← Nat.shiftRight_add, Nat.reduceAdd, Nat.reduceShiftLeft,
      List.cons.injEq, Piece.mk.injEq, and_true] at hunpack
  case R =>
    obtain ⟨hmajor, _, hminor, _, _, hupper⟩ := hunpack
    exact ⟨hmajor, fun _ => hminor, fun _ => hupper⟩
  case I =>
    obtain ⟨hmajor, _, hminor, _, himm⟩ := hunpack
    refine ⟨hmajor, fun _ => hminor, fun hhas => ?_⟩
    have hshift := Opcode.isImmediateShift_of_hasUpperCode hhas (by rw [hformat]; decide)
    rw [← hcarries.upper hshift, ← himm]
    omega
  case S =>
    obtain ⟨hmajor, _, hminor, _⟩ := hunpack
    exact ⟨hmajor, fun _ => hminor, fun hhas => (hnone (by decide) (by decide) hhas).elim⟩
  case B =>
    obtain ⟨hmajor, _, _, hminor, _⟩ := hunpack
    exact ⟨hmajor, fun _ => hminor, fun hhas => (hnone (by decide) (by decide) hhas).elim⟩
  case U =>
    refine ⟨hunpack.1, fun hhas => ?_, fun hhas => (hnone (by decide) (by decide) hhas).elim⟩
    rw [Opcode.hasMinorCode, hformat] at hhas
    cases hhas
  case J =>
    refine ⟨hunpack.1, fun hhas => ?_, fun hhas => (hnone (by decide) (by decide) hhas).elim⟩
    rw [Opcode.hasMinorCode, hformat] at hhas
    cases hhas

theorem position_getElem (format : Format) :
    ∀ index, ∀ hlt : index < format.fields.length, format.position? format.fields[index] = some index := by
  cases format <;> decide

theorem fieldNumber_getElem (operands : Operands) {index : Nat} (hlt : index < operands.values.length)
    (hfield : index < operands.format.fields.length) :
    fieldNumber operands operands.format.fields[index] = operands.values[index].toNat := by
  rw [fieldNumber, Operands.get?, position_getElem, Option.bind_some, List.getElem?_eq_getElem hlt]
  rfl

/-- Operands in one layout, whose fields have equal widths and hold equal numbers, are the
    same. -/
theorem eq_of_fieldNumber {a b : Operands} (hformat : a.format = b.format)
    (hwidths : a.values.map Bits.width = b.values.map Bits.width)
    (hnumbers : ∀ field ∈ a.format.fields, fieldNumber a field = fieldNumber b field) : a = b := by
  have hvalues : a.values = b.values := by
    refine List.ext_getElem (by simpa using congrArg List.length hwidths) fun index ha hb => ?_
    have hfield : index < a.format.fields.length := a.length_values ▸ ha
    have hfield' : index < b.format.fields.length := b.length_values ▸ hb
    have hnumber := hnumbers _ (List.getElem_mem hfield)
    have hwidth := congrArg (·[index]?) hwidths
    rw [fieldNumber_getElem a ha hfield] at hnumber
    simp only [hformat, fieldNumber_getElem b hb hfield'] at hnumber
    refine Bits.ext ?_ hnumber
    simpa [ha, hb] using hwidth
  obtain ⟨_, _, _⟩ := a
  obtain ⟨_, _, _⟩ := b
  cases hformat
  cases hvalues
  rfl

/-- What an instruction is made of tells its operands. -/
theorem Opcode.pieces_injective {a b : Operands} (ha : opcode.Carries a) (hb : opcode.Carries b)
    (hpieces : opcode.pieces a = opcode.pieces b) : a = b := by
  refine eq_of_fieldNumber (ha.format.trans hb.format.symm) (ha.widths.trans hb.widths.symm) ?_
  have himm := ha.fieldNumber_lt .imm
  have himm' := hb.fieldNumber_lt .imm
  have heven := ha.even
  have heven' := hb.even
  rw [ha.format]
  unfold pieces at hpieces
  cases hformat : opcode.format <;> rw [hformat] at hpieces himm himm' heven heven' <;>
    simp only [List.cons.injEq, Piece.mk.injEq, and_true] at hpieces <;>
    simp only [Format.fields, List.forall_mem_cons, List.not_mem_nil, false_imp_iff, implies_true, and_true]
  case R =>
    obtain ⟨-, hrd, -, hrs1, hrs2⟩ := hpieces
    exact ⟨hrd, hrs1, hrs2⟩
  case I =>
    obtain ⟨-, hrd, -, hrs1, himms⟩ := hpieces
    exact ⟨hrd, hrs1, himms⟩
  case S =>
    obtain ⟨-, hlow, -, hrs1, hrs2, hhigh⟩ := hpieces
    refine ⟨hrs1, hrs2, Piece.eq_of_unpack [5, 7] himm himm' ?_⟩
    simp only [Piece.unpack, Nat.reduceShiftLeft, hlow, hhigh]
  case B =>
    obtain ⟨-, h11, h1, -, hrs1, hrs2, h5, h12⟩ := hpieces
    refine ⟨hrs1, hrs2, Piece.eq_of_unpack [1, 4, 6, 1, 1] himm himm' ?_⟩
    simp only [Piece.unpack, ← Nat.shiftRight_add, Nat.reduceAdd, Nat.reduceShiftLeft, heven (.inl rfl),
      heven' (.inl rfl), h1, h5, h11, h12]
  case U => exact ⟨hpieces.2.1, hpieces.2.2⟩
  case J =>
    obtain ⟨-, hrd, h12, h11, h1, h20⟩ := hpieces
    refine ⟨hrd, Piece.eq_of_unpack [1, 10, 1, 8, 1] himm himm' ?_⟩
    simp only [Piece.unpack, ← Nat.shiftRight_add, Nat.reduceAdd, Nat.reduceShiftLeft, heven (.inr rfl),
      heven' (.inr rfl), h1, h11, h12, h20]

theorem operands_encode (hcarries : opcode.Carries operands) :
    (encode opcode operands).operands opcode.format = operands :=
  Opcode.pieces_injective (carries_operands (recognizes_encode hcarries)) hcarries
    ((pieces_operands (recognizes_encode hcarries)).trans (unpack_encode hcarries))

theorem encode_operands (hrecognizes : opcode.Recognizes w.toNat) :
    encode opcode (w.operands opcode.format) = w := by
  have hsize : w.toNat < 1 <<< Piece.totalWidth (pieceWidths opcode.format) := by
    rw [totalWidth_pieceWidths]
    exact w.isLt
  apply BitVec.eq_of_toNat_eq
  rw [toNat_encode (carries_operands hrecognizes), Opcode.layout, pieces_operands hrecognizes,
    Piece.pack_unpack hsize]

/-- How decoding under some extensions relates to the encoding. Encoding writes every
    instruction in its layout. What is decoded from a word is well formed and encoded as that
    word, what is well formed is decoded from the word that it is encoded as, and other
    words are no instructions. Of the extensions, only multiplication matters. -/
structure Inverts (extensions : Extensions) : Prop where
  layout : ∀ {opcode : Opcode} {operands : Operands}, opcode.Carries operands →
    (encode opcode operands).toNat = opcode.layout operands
  encodes : ∀ {w : Word} {decoded : Decoded Opcode}, decode w extensions = some decoded →
    decoded.opcode.Carries decoded.operands ∧ (decoded.opcode.isMultiplication = true → extensions.m = true) ∧
      encode decoded.opcode decoded.operands = w
  decodes : ∀ {opcode : Opcode} {operands : Operands}, opcode.Carries operands →
    (opcode.isMultiplication = true → extensions.m = true) →
      decode (encode opcode operands) extensions = some ⟨opcode, operands⟩
  injective : ∀ {w w' : Word} {extensions' : Extensions} {decoded : Decoded Opcode},
    decode w extensions = some decoded → decode w' extensions' = some decoded → w = w'
  undecodable : ∀ {w : Word}, decode w extensions = none ↔ ∀ (opcode : Opcode) (operands : Operands),
    opcode.Carries operands → (opcode.isMultiplication = true → extensions.m = true) →
      encode opcode operands ≠ w
  multiplication : ∀ {extensions' : Extensions}, extensions.m = extensions'.m →
    ∀ w : Word, decode w extensions = decode w extensions'

theorem encode_of_decode {extensions : Extensions} {decoded : Decoded Opcode}
    (hdecode : decode w extensions = some decoded) :
    decoded.opcode.Carries decoded.operands ∧ decoded.opcode.isEnabled extensions = true ∧
      encode decoded.opcode decoded.operands = w := by
  obtain ⟨henabled, hrecognizes, hoperands⟩ := decode_eq_some_iff.mp hdecode
  rw [hoperands]
  exact ⟨carries_operands hrecognizes, henabled, encode_operands hrecognizes⟩

theorem decode_encode {extensions : Extensions} (hcarries : opcode.Carries operands)
    (henabled : opcode.isEnabled extensions = true) :
    decode (encode opcode operands) extensions = some ⟨opcode, operands⟩ :=
  decode_eq_some_iff.mpr ⟨henabled, recognizes_encode hcarries, (operands_encode hcarries).symm⟩

/-- Decoding is the inverse of encoding. -/
theorem decode_inverts (extensions : Extensions) : Inverts extensions where
  layout := toNat_encode
  encodes := fun {_ decoded} hdecode => by
    obtain ⟨hcarries, henabled, hencode⟩ := encode_of_decode hdecode
    exact ⟨hcarries, (decoded.opcode.isEnabled_iff extensions).mp henabled, hencode⟩
  decodes := fun {opcode _} hcarries hmultiplication =>
    decode_encode hcarries ((opcode.isEnabled_iff extensions).mpr hmultiplication)
  injective := fun {_ _ _ _} hdecode hdecode' =>
    (encode_of_decode hdecode).2.2.symm.trans (encode_of_decode hdecode').2.2
  undecodable := fun {w} => by
    constructor
    · rintro hnone opcode operands hcarries hmultiplication rfl
      have henabled := (opcode.isEnabled_iff extensions).mpr hmultiplication
      rw [decode_encode hcarries henabled] at hnone
      cases hnone
    · intro houtside
      cases hdecode : decode w extensions with
      | none => rfl
      | some decoded =>
        obtain ⟨hcarries, henabled, hencode⟩ := encode_of_decode hdecode
        exact (houtside _ _ hcarries ((decoded.opcode.isEnabled_iff extensions).mp henabled) hencode).elim
  multiplication := fun {_} hm w => by rw [decode, hm, decode]

/-- A jump four back, whose immediate is scattered over four pieces. -/
theorem jump_roundtrip :
    decode 0xffdff0ef#32 Extensions.none = some ⟨.jal, Word.operands 0xffdff0ef#32 .J⟩ ∧
      Opcode.jal.layout (Word.operands 0xffdff0ef#32 .J) = 0xffdff0ef ∧
      encode .jal (Word.operands 0xffdff0ef#32 .J) = 0xffdff0ef#32 := by
  have hdecode : decode 0xffdff0ef#32 Extensions.none = some ⟨.jal, Word.operands 0xffdff0ef#32 .J⟩ := by
    decide
  obtain ⟨hcarries, _, hencode⟩ := (decode_inverts Extensions.none).encodes hdecode
  refine ⟨hdecode, ?_, hencode⟩
  rw [← (decode_inverts Extensions.none).layout hcarries, hencode]
  rfl

end RiscvSemantics.Rv32
