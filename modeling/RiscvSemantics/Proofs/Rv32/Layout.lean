import RiscvSemantics.Proofs.Rv32.Fields

namespace RiscvSemantics.Rv32

namespace Opcode

/-- The lowest seven bits of an instruction, which tell its kind. -/
def majorCode : Opcode → Nat
  | .lui => 0b0110111
  | .auipc => 0b0010111
  | .jal => 0b1101111
  | .beq | .bne | .blt | .bge | .bltu | .bgeu => 0b1100011
  | .lb | .lh | .lw | .lbu | .lhu => 0b0000011
  | .sb | .sh | .sw => 0b0100011
  | .addi | .slti | .sltiu | .xori | .ori | .andi | .slli | .srli | .srai => 0b0010011
  | _ => 0b0110011

/-- The three bits that tell instructions of one kind apart. -/
def minorCode : Opcode → Nat
  | .bne | .lh | .sh | .slli | .sll | .mulh => 1
  | .lw | .sw | .slti | .slt | .mulhsu => 2
  | .sltiu | .sltu | .mulhu => 3
  | .blt | .lbu | .xori | .xor | .div => 4
  | .bge | .lhu | .srli | .srai | .srl | .sra | .divu => 5
  | .bltu | .ori | .or | .rem => 6
  | .bgeu | .andi | .and | .remu => 7
  | _ => 0

/-- The highest seven bits, where they tell instructions apart. -/
def upperCode : Opcode → Nat
  | .sub | .sra | .srai => 0b0100000
  | .mul | .mulh | .mulhsu | .mulhu | .div | .divu | .rem | .remu => 0b0000001
  | _ => 0

/-- The shifts by an immediate amount. Their upper code stands above the amount, within the
    immediate. -/
def isImmediateShift : Opcode → Bool
  | .slli | .srli | .srai => true
  | _ => false

def hasMinorCode (opcode : Opcode) : Bool :=
  opcode.format ≠ .U && opcode.format ≠ .J

def hasUpperCode (opcode : Opcode) : Bool :=
  opcode.format = .R || opcode.isImmediateShift

/-- The fixed bits of every instruction. -/
theorem pattern_eq (opcode : Opcode) :
    opcode.pattern.major = BitVec.ofNat 5 (opcode.majorCode / 4) ∧
      opcode.pattern.funct3 = (if opcode.hasMinorCode then some (BitVec.ofNat 3 opcode.minorCode) else none) ∧
      opcode.pattern.funct7 =
        if opcode.hasUpperCode then some (BitVec.ofNat 7 opcode.upperCode) else none := by
  cases opcode <;> exact ⟨rfl, rfl, rfl⟩

theorem codes_bounds (opcode : Opcode) :
    opcode.majorCode % 4 = 3 ∧ opcode.majorCode < 128 ∧ opcode.minorCode < 8 ∧ opcode.upperCode < 128 := by
  cases opcode <;> decide

end Opcode

/-- The number that stands in a field of some operands; zero if they lack the field. -/
def fieldNumber (operands : Operands) (field : Field) : Nat :=
  ((operands.get? field).map Bits.toNat).getD 0

/-- The widths of the operands that are read from a word in a layout. -/
def operandWidths : Format → List Nat
  | .R => [5, 5, 5]
  | .I | .S => [5, 5, 12]
  | .B => [5, 5, 13]
  | .U => [5, 20]
  | .J => [5, 21]

/-- How wide the pieces of a word are in a layout, from the lowest up. -/
def pieceWidths : Format → List Nat
  | .R | .S => [7, 5, 3, 5, 5, 7]
  | .I => [7, 5, 3, 5, 12]
  | .B => [7, 1, 4, 3, 5, 5, 6, 1]
  | .U => [7, 5, 20]
  | .J => [7, 5, 8, 1, 10, 1]

/-- What an instruction with some operands is made of, from the lowest bits up. The
    immediates of stores, branches and jumps are scattered. -/
def Opcode.pieces (opcode : Opcode) (operands : Operands) : List Piece :=
  let major : Piece := ⟨opcode.majorCode, 7⟩
  let minor : Piece := ⟨opcode.minorCode, 3⟩
  let rd : Piece := ⟨fieldNumber operands .rd, 5⟩
  let rs1 : Piece := ⟨fieldNumber operands .rs1, 5⟩
  let rs2 : Piece := ⟨fieldNumber operands .rs2, 5⟩
  let imm := fieldNumber operands .imm
  match opcode.format with
  | .R => [major, rd, minor, rs1, rs2, ⟨opcode.upperCode, 7⟩]
  | .I => [major, rd, minor, rs1, ⟨imm, 12⟩]
  | .S => [major, ⟨imm % 32, 5⟩, minor, rs1, rs2, ⟨imm >>> 5 % 128, 7⟩]
  | .B =>
    [major, ⟨imm >>> 11 % 2, 1⟩, ⟨imm >>> 1 % 16, 4⟩, minor, rs1, rs2, ⟨imm >>> 5 % 64, 6⟩,
      ⟨imm >>> 12 % 2, 1⟩]
  | .U => [major, rd, ⟨imm, 20⟩]
  | .J =>
    [major, rd, ⟨imm >>> 12 % 256, 8⟩, ⟨imm >>> 11 % 2, 1⟩, ⟨imm >>> 1 % 1024, 10⟩, ⟨imm >>> 20 % 2, 1⟩]

/-- The number of the word that an instruction with some operands is. -/
def Opcode.layout (opcode : Opcode) (operands : Operands) : Nat :=
  Piece.pack (opcode.pieces operands)

/-- An instruction can have these operands: they have its layout and the widths of that
    layout, offsets are even, and the upper code of a shift stands in its immediate. -/
structure Opcode.Carries (opcode : Opcode) (operands : Operands) : Prop where
  format : operands.format = opcode.format
  widths : operands.values.map Bits.width = operandWidths opcode.format
  even : opcode.format = .B ∨ opcode.format = .J → fieldNumber operands .imm % 2 = 0
  upper : opcode.isImmediateShift = true → fieldNumber operands .imm >>> 5 = opcode.upperCode

/-- The fixed bits of the number of a word are those of an instruction. -/
structure Opcode.Recognizes (opcode : Opcode) (n : Nat) : Prop where
  major : n % 128 = opcode.majorCode
  minor : opcode.hasMinorCode = true → n >>> 12 % 8 = opcode.minorCode
  upper : opcode.hasUpperCode = true → n >>> 25 % 128 = opcode.upperCode

/-- The fields that the decoder goes by are those of an instruction, which is switched on. -/
structure Opcode.Selected (opcode : Opcode) (major : BitVec 5) (funct3 : BitVec 3) (funct7 : BitVec 7)
    (multiplication : Bool) : Prop where
  major : opcode.majorCode = 4 * major.toNat + 3
  minor : opcode.hasMinorCode = true → opcode.minorCode = funct3.toNat
  upper : opcode.hasUpperCode = true → opcode.upperCode = funct7.toNat
  enabled : opcode.isMultiplication = true → multiplication = true

/-- Whether an opcode can be decoded under a set of extensions. -/
def Opcode.isEnabled (opcode : Opcode) (extensions : Extensions) : Bool :=
  !opcode.isMultiplication || extensions.m

theorem Opcode.isEnabled_iff (opcode : Opcode) (extensions : Extensions) :
    opcode.isEnabled extensions = true ↔ (opcode.isMultiplication = true → extensions.m = true) := by
  rw [isEnabled]
  cases opcode.isMultiplication <;> simp

/-- The fixed bits of a word, field by field. -/
theorem Opcode.selected_iff (opcode : Opcode) (w : Word) (extensions : Extensions) :
    opcode.Selected w.major w.funct3 w.funct7 extensions.m ∧ w.quadrant = 0b11 ↔
      opcode.isEnabled extensions = true ∧ opcode.Recognizes w.toNat := by
  have hkind : opcode.majorCode = 4 * w.major.toNat + 3 ∧ w.quadrant = 0b11 ↔
      w.toNat % 128 = opcode.majorCode := by
    obtain ⟨hfull, hlt, -, -⟩ := opcode.codes_bounds
    have hthree : (0b11 : BitVec 2).toNat = 3 := rfl
    rw [← BitVec.toNat_inj, Word.toNat_quadrant, Word.toNat_major, hthree]
    omega
  rw [isEnabled_iff]
  constructor
  · rintro ⟨⟨hmajor, hminor, hupper, henabled⟩, hquadrant⟩
    rw [Word.toNat_funct3] at hminor
    rw [Word.toNat_funct7] at hupper
    exact ⟨henabled, hkind.mp ⟨hmajor, hquadrant⟩, fun hhas => (hminor hhas).symm, fun hhas => (hupper hhas).symm⟩
  · rintro ⟨henabled, hmajor, hminor, hupper⟩
    rw [← Word.toNat_funct3] at hminor
    rw [← Word.toNat_funct7] at hupper
    obtain ⟨hmajor, hquadrant⟩ := hkind.mpr hmajor
    exact ⟨⟨hmajor, fun hhas => (hminor hhas).symm, fun hhas => (hupper hhas).symm, henabled⟩, hquadrant⟩

/-- Two instructions that the same fixed bits could stand for. -/
def Opcode.overlaps (a b : Opcode) : Bool :=
  a.majorCode == b.majorCode && (!(a.hasMinorCode && b.hasMinorCode) || a.minorCode == b.minorCode) &&
    (!(a.hasUpperCode && b.hasUpperCode) || a.upperCode == b.upperCode)

theorem Opcode.eq_of_overlaps : ∀ a ∈ Opcode.all, ∀ b ∈ Opcode.all, a.overlaps b = true → a = b := by
  decide +kernel

theorem Opcode.mem_all (opcode : Opcode) : opcode ∈ Opcode.all := by
  cases opcode <;> decide

/-- No number is that of two instructions. -/
theorem Opcode.Recognizes.unique {a b : Opcode} {n : Nat} (ha : a.Recognizes n) (hb : b.Recognizes n) :
    a = b := by
  refine eq_of_overlaps a a.mem_all b b.mem_all ?_
  have hmajor : a.majorCode = b.majorCode := ha.major.symm.trans hb.major
  have hminor : a.hasMinorCode = true → b.hasMinorCode = true → a.minorCode = b.minorCode :=
    fun hina hinb => (ha.minor hina).symm.trans (hb.minor hinb)
  have hupper : a.hasUpperCode = true → b.hasUpperCode = true → a.upperCode = b.upperCode :=
    fun hina hinb => (ha.upper hina).symm.trans (hb.upper hinb)
  simp only [overlaps, Bool.and_eq_true, Bool.or_eq_true, Bool.not_eq_true', beq_iff_eq]
  refine ⟨⟨hmajor, ?_⟩, ?_⟩
  · cases hina : a.hasMinorCode <;> cases hinb : b.hasMinorCode <;> simp_all
  · cases hina : a.hasUpperCode <;> cases hinb : b.hasUpperCode <;> simp_all

section Decoder

variable {opcode : Opcode} {funct3 : BitVec 3} {funct7 : BitVec 7} {multiplication : Bool}

theorem ofNat_of_eq_toNat {n code : Nat} {a : BitVec n} (hcode : code = a.toNat) : BitVec.ofNat n code = a := by
  rw [hcode, BitVec.ofNat_toNat, BitVec.setWidth_eq]

theorem loadOpcode?_eq_some_iff :
    loadOpcode? funct3 = some opcode ↔ opcode.Selected 0b00000 funct3 funct7 multiplication := by
  constructor
  · intro hopcode
    unfold loadOpcode? at hopcode
    split at hopcode <;> cases hopcode <;> exact ⟨rfl, fun _ => rfl, nofun, nofun⟩
  · rintro ⟨hmajor, hminor, -, -⟩
    cases opcode <;> cases hmajor <;> obtain rfl := ofNat_of_eq_toNat (hminor rfl) <;> rfl

theorem storeOpcode?_eq_some_iff :
    storeOpcode? funct3 = some opcode ↔ opcode.Selected 0b01000 funct3 funct7 multiplication := by
  constructor
  · intro hopcode
    unfold storeOpcode? at hopcode
    split at hopcode <;> cases hopcode <;> exact ⟨rfl, fun _ => rfl, nofun, nofun⟩
  · rintro ⟨hmajor, hminor, -, -⟩
    cases opcode <;> cases hmajor <;> obtain rfl := ofNat_of_eq_toNat (hminor rfl) <;> rfl

theorem branchOpcode?_eq_some_iff :
    branchOpcode? funct3 = some opcode ↔ opcode.Selected 0b11000 funct3 funct7 multiplication := by
  constructor
  · intro hopcode
    unfold branchOpcode? at hopcode
    split at hopcode <;> cases hopcode <;> exact ⟨rfl, fun _ => rfl, nofun, nofun⟩
  · rintro ⟨hmajor, hminor, -, -⟩
    cases opcode <;> cases hmajor <;> obtain rfl := ofNat_of_eq_toNat (hminor rfl) <;> rfl

theorem immediateOpcode?_eq_some_iff :
    immediateOpcode? funct3 funct7 = some opcode ↔ opcode.Selected 0b00100 funct3 funct7 multiplication := by
  constructor
  · intro hopcode
    unfold immediateOpcode? at hopcode
    split at hopcode <;> cases hopcode <;> exact ⟨rfl, fun _ => rfl, fun hhas => by cases hhas <;> rfl, nofun⟩
  · rintro ⟨hmajor, hminor, hupper, -⟩
    cases opcode <;> cases hmajor <;> obtain rfl := ofNat_of_eq_toNat (hminor rfl) <;>
      first | rfl | (obtain rfl := ofNat_of_eq_toNat (hupper rfl); rfl)

theorem selected_multiplicationOpcode :
    ∀ funct3, (multiplicationOpcode funct3).Selected 0b01100 funct3 0b0000001 true := by
  have hcodes : ∀ funct3, (multiplicationOpcode funct3).majorCode = 0b0110011 ∧
      (multiplicationOpcode funct3).minorCode = funct3.toNat ∧ (multiplicationOpcode funct3).upperCode = 1 := by
    decide
  intro funct3
  obtain ⟨hmajor, hminor, hupper⟩ := hcodes funct3
  exact ⟨hmajor, fun _ => hminor, fun _ => hupper, fun _ => rfl⟩

theorem registerOpcode?_eq_some_iff :
    registerOpcode? multiplication funct7 funct3 = some opcode ↔
      opcode.Selected 0b01100 funct3 funct7 multiplication := by
  constructor
  · intro hopcode
    unfold registerOpcode? at hopcode
    split at hopcode
    case h_11 =>
      -- The gate before multiplications and divisions.
      split at hopcode
      · next henabled =>
        cases hopcode
        exact henabled ▸ selected_multiplicationOpcode funct3
      · cases hopcode
    case h_12 => cases hopcode
    all_goals
      cases hopcode
      exact ⟨rfl, fun _ => rfl, fun _ => rfl, nofun⟩
  · rintro ⟨hmajor, hminor, hupper, henabled⟩
    cases opcode <;> cases hmajor <;> obtain rfl := ofNat_of_eq_toNat (hminor rfl) <;>
      obtain rfl := ofNat_of_eq_toNat (hupper rfl) <;> first | rfl | exact if_pos (henabled rfl)

/-- A kind of a single instruction, which its major opcode tells alone. -/
theorem sole_eq_some_iff {sole : Opcode} {major : BitVec 5}
    (hsole : ∀ opcode ∈ Opcode.all, opcode.majorCode = 4 * major.toNat + 3 ↔ opcode = sole)
    (hminor : sole.hasMinorCode = false) (hupper : sole.hasUpperCode = false)
    (henabled : sole.isMultiplication = false) :
    some sole = some opcode ↔ opcode.Selected major funct3 funct7 multiplication := by
  have hkind := hsole opcode opcode.mem_all
  rw [Option.some_inj]
  constructor
  · rintro rfl
    exact ⟨hkind.mpr rfl, by simp [hminor], by simp [hupper], by simp [henabled]⟩
  · intro hselected
    exact (hkind.mp hselected.major).symm

/-- Instructions of one kind have one layout. -/
theorem Opcode.format_eq_of_majorCode : ∀ a ∈ Opcode.all, ∀ b ∈ Opcode.all, a.majorCode = b.majorCode →
    a.format = b.format := by
  decide +kernel

/-- The operands are read in the layout of a kind, which one of its instructions shows. -/
theorem map_operands_eq_some_iff {w : Word} {opcode? : Option Opcode} {decoded : Decoded Opcode}
    {major : BitVec 5} (shown : Opcode) (hshown : shown.majorCode = 4 * major.toNat + 3)
    (hopcode : ∀ {opcode}, opcode? = some opcode ↔ opcode.Selected major w.funct3 w.funct7 multiplication) :
    opcode?.map (fun opcode => Decoded.mk opcode (w.operands shown.format)) = some decoded ↔
      decoded.opcode.Selected major w.funct3 w.funct7 multiplication ∧
        decoded.operands = w.operands decoded.opcode.format := by
  have hformat {opcode : Opcode} (hselected : opcode.Selected major w.funct3 w.funct7 multiplication) :
      shown.format = opcode.format :=
    shown.format_eq_of_majorCode shown.mem_all opcode opcode.mem_all (hshown.trans hselected.major.symm)
  rw [Option.map_eq_some_iff]
  constructor
  · rintro ⟨opcode, hsome, rfl⟩
    have hselected := hopcode.mp hsome
    exact ⟨hselected, by rw [hformat hselected]⟩
  · rintro ⟨hselected, hoperands⟩
    exact ⟨decoded.opcode, hopcode.mpr hselected, by rw [hformat hselected, ← hoperands]⟩

/-- The kinds of instructions, one for every arm of the decoder. -/
theorem Opcode.major_mem : ∀ opcode ∈ Opcode.all, BitVec.ofNat 5 (opcode.majorCode / 4) ∈
    [0b00000#5, 0b00100#5, 0b00101#5, 0b01000#5, 0b01100#5, 0b01101#5, 0b11000#5, 0b11011#5] := by
  decide +kernel

end Decoder

/-- A word is decoded as the instruction whose fixed bits it has, if that is enabled. -/
theorem decode_eq_some_iff {w : Word} {extensions : Extensions} {decoded : Decoded Opcode} :
    decode w extensions = some decoded ↔ decoded.opcode.isEnabled extensions = true ∧
      decoded.opcode.Recognizes w.toNat ∧ decoded.operands = w.operands decoded.opcode.format := by
  rw [← and_assoc, ← Opcode.selected_iff]
  unfold decode
  by_cases hquadrant : w.quadrant = 0b11
  · rw [if_pos hquadrant, and_iff_left hquadrant]
    split
    case h_1 hmajor => exact hmajor ▸ map_operands_eq_some_iff .lb rfl loadOpcode?_eq_some_iff
    case h_2 hmajor => exact hmajor ▸ map_operands_eq_some_iff .addi rfl immediateOpcode?_eq_some_iff
    case h_3 hmajor => exact hmajor ▸ map_operands_eq_some_iff .auipc rfl (sole_eq_some_iff (by decide) rfl rfl rfl)
    case h_4 hmajor => exact hmajor ▸ map_operands_eq_some_iff .sb rfl storeOpcode?_eq_some_iff
    case h_5 hmajor => exact hmajor ▸ map_operands_eq_some_iff .add rfl registerOpcode?_eq_some_iff
    case h_6 hmajor => exact hmajor ▸ map_operands_eq_some_iff .lui rfl (sole_eq_some_iff (by decide) rfl rfl rfl)
    case h_7 hmajor => exact hmajor ▸ map_operands_eq_some_iff .beq rfl branchOpcode?_eq_some_iff
    case h_8 hmajor => exact hmajor ▸ map_operands_eq_some_iff .jal rfl (sole_eq_some_iff (by decide) rfl rfl rfl)
    case h_9 hload himmediate hauipc hstore hregister hlui hbranch hjal =>
      refine ⟨nofun, fun ⟨hselected, _⟩ => ?_⟩
      have hmajor : decoded.opcode.majorCode / 4 = w.major.toNat := by
        have := hselected.major
        omega
      have hmem := decoded.opcode.major_mem decoded.opcode.mem_all
      rw [ofNat_of_eq_toNat hmajor] at hmem
      simp only [List.mem_cons, List.not_mem_nil, or_false] at hmem
      obtain h | h | h | h | h | h | h | h := hmem <;> contradiction
  · rw [if_neg hquadrant]
    exact ⟨nofun, fun ⟨⟨_, hfull⟩, _⟩ => absurd hfull hquadrant⟩

end RiscvSemantics.Rv32
