import RiscvSemantics.Json.Codec
import RiscvSemantics.Proofs.Bits.Width
import RiscvSemantics.Proofs.Stored.Basic

namespace RiscvSemantics

open Json

variable {τ ε : Type}

namespace Json.Codec

/-- A text is that of a structure with a width and a value, and nothing else. -/
def Gives (codec : Codec τ ε) (text : String) (width value : Nat) : Prop :=
  ∃ rest last, codec.readParts.run (codec.start text) = .ok ((width, value), rest) ∧
    codec.finish.run rest = .ok ((), last)

/-- What is relied on of a format: the numbers of a structure that was written are read again, as far
    as they fit, in whatever order the fields stand. -/
structure Lawful (codec : Codec τ ε) : Prop where
  gives : ∀ {title : String} {width value : Nat}, width < UInt32.size → value < UInt64.size →
    codec.Gives (codec.write title [("width", width), ("bits", value)]) width value
  gives_swapped : ∀ {title : String} {width value : Nat}, width < UInt32.size → value < UInt64.size →
    codec.Gives (codec.write title [("bits", value), ("width", width)]) width value

theorem Gives.unique {codec : Codec τ ε} {text : String} {width value width' value' : Nat}
    (h : codec.Gives text width value) (h' : codec.Gives text width' value') : width = width' ∧ value = value' := by
  obtain ⟨rest, -, hparts, -⟩ := h
  obtain ⟨rest', -, hparts', -⟩ := h'
  rw [hparts] at hparts'
  cases hparts'
  exact ⟨rfl, rfl⟩

end Json.Codec

namespace Bits

variable {codec : Codec τ ε} {a : Bits} {text : String} {width value : Nat}

section Checks

theorem ofParts_of_lt (h : 64 < width) :
    ofParts width value = .error (.invalidValue (.unsigned width) "a width of at most 64 bits") :=
  dif_neg (Nat.not_le.mpr h)

theorem ofParts_of_le (hwidth : width ≤ 64) : ofParts width value =
    if value < 2 ^ width then .ok ⟨width, BitVec.ofNat width value, hwidth⟩
    else .error (.invalidValue (.unsigned value) s!"a value that fits in {width} bits") := by
  have hkept : value % 2 ^ width = value ↔ value < 2 ^ width := by
    constructor
    · intro h
      rw [← h]
      exact Nat.mod_lt _ (Nat.two_pow_pos width)
    · exact Nat.mod_eq_of_lt
  rw [ofParts, dif_pos hwidth]
  simp only [toNat_mk, BitVec.toNat_ofNat, hkept]

theorem ofParts_eq_ok_iff : ofParts width value = .ok a ↔ a.width = width ∧ a.toNat = value := by
  constructor
  · intro h
    rw [ofParts] at h
    split at h
    case isTrue hwidth =>
      dsimp only at h
      split at h
      case isTrue hvalue =>
        obtain rfl := Except.ok.inj h
        exact ⟨rfl, hvalue⟩
      case isFalse => cases h
    case isFalse => cases h
  · rintro ⟨rfl, rfl⟩
    rw [ofParts_of_le a.width_le]
    exact (if_pos a.value.isLt).trans (congrArg Except.ok (eq_mk_toNat rfl a.width_le).symm)

end Checks

section Texts

variable {rest : τ}

theorem deserialize_of_ok (hread : codec.readParts.run (codec.start text) = .ok ((width, value), rest))
    (hparts : ofParts width value = .ok a) :
    deserialize codec text = (codec.finish.run rest).map fun _ => a := by
  rw [deserialize, reader, StateT.run_bind, hread]
  dsimp only [bind, Except.bind]
  rw [hparts]
  dsimp only [pure, StateT.pure, StateT.run, Except.pure]
  cases codec.finish rest with
  | error e => rfl
  | ok done => rfl

theorem deserialize_of_error {reason : Rejection}
    (hread : codec.readParts.run (codec.start text) = .ok ((width, value), rest))
    (hparts : ofParts width value = .error reason) : deserialize codec text = .error (codec.refuse reason) := by
  rw [deserialize, reader, StateT.run_bind, hread]
  dsimp only [bind, Except.bind]
  rw [hparts]
  rfl

theorem exists_read_of_deserialize (hread : deserialize codec text = .ok a) :
    ∃ width value rest, codec.readParts.run (codec.start text) = .ok ((width, value), rest) := by
  rw [deserialize, reader, StateT.run_bind] at hread
  cases hparts : codec.readParts.run (codec.start text) with
  | error e =>
    rw [hparts] at hread
    cases hread
  | ok read => exact ⟨read.1.1, read.1.2, read.2, rfl⟩

/-- A text is read as the vector whose width and value it gives. -/
theorem deserialize_eq_ok_iff : deserialize codec text = .ok a ↔ codec.Gives text a.width a.toNat := by
  constructor
  · intro h
    obtain ⟨width, value, rest, hread⟩ := exists_read_of_deserialize h
    cases hparts : ofParts width value with
    | error reason =>
      rw [deserialize_of_error hread hparts] at h
      cases h
    | ok b =>
      rw [deserialize_of_ok hread hparts] at h
      cases hfinish : codec.finish.run rest with
      | error e =>
        rw [hfinish] at h
        cases h
      | ok done =>
        rw [hfinish] at h
        obtain rfl := Except.ok.inj h
        obtain ⟨rfl, rfl⟩ := ofParts_eq_ok_iff.mp hparts
        exact ⟨rest, done.2, hread, hfinish⟩
  · rintro ⟨rest, last, hread, hfinish⟩
    rw [deserialize_of_ok hread (ofParts_eq_ok_iff.mpr ⟨rfl, rfl⟩), hfinish]
    rfl

/-- What a text gives is accepted if it is the width and the value of a vector. -/
theorem accepted_iff (hgives : codec.Gives text width value) :
    (∃ b, deserialize codec text = .ok b) ↔ width ≤ 64 ∧ value < 2 ^ width := by
  constructor
  · rintro ⟨b, hb⟩
    obtain ⟨rfl, rfl⟩ := hgives.unique (deserialize_eq_ok_iff.mp hb)
    exact ⟨b.width_le, b.value.isLt⟩
  · rintro ⟨hwidth, hvalue⟩
    refine ⟨⟨width, BitVec.ofNat width value, hwidth⟩, deserialize_eq_ok_iff.mpr ?_⟩
    rwa [toNat_mk, BitVec.toNat_ofNat, Nat.mod_eq_of_lt hvalue]

/-- How a text that gives a width and a value is judged. It is accepted if the width is none that is too
    large and the value fits it, and then it is read as it stands. Else it is refused, for the width first. -/
structure Judged (codec : Codec τ ε) (text : String) (width value : Nat) : Prop where
  unchanged : ∀ {a : Bits}, deserialize codec text = .ok a → a.width = width ∧ a.toNat = value
  accepted : (∃ a, deserialize codec text = .ok a) ↔ width ≤ 64 ∧ value < 2 ^ width
  wide : 64 < width → deserialize codec text =
    .error (codec.refuse (.invalidValue (.unsigned width) "a width of at most 64 bits"))
  stray : width ≤ 64 → 2 ^ width ≤ value → deserialize codec text =
    .error (codec.refuse (.invalidValue (.unsigned value) s!"a value that fits in {width} bits"))

theorem judged (hgives : codec.Gives text width value) : Judged codec text width value where
  unchanged hread := (deserialize_eq_ok_iff.mp hread).unique hgives
  accepted := accepted_iff hgives
  wide hwide := by
    obtain ⟨rest, _, hread, _⟩ := hgives
    exact deserialize_of_error hread (ofParts_of_lt hwide)
  stray hwidth hstray := by
    obtain ⟨rest, _, hread, _⟩ := hgives
    refine deserialize_of_error hread ?_
    rw [ofParts_of_le hwidth, if_neg (Nat.not_lt.mpr hstray)]

end Texts

end Bits

namespace Stored

/-- A width and a value as words, if no bit of the value is beyond the width. The bits of a width that is too
    large are never asked for. -/
def ofParts (width : BitVec 32) (bits : BitVec 64) : Checked (Except Rejection Stored) :=
  if 64 < width.toNat then .ok (.error (.invalidValue (.unsigned width.toNat) "a width of at most 64 bits"))
  else do
    let low ← mask width
    if bits &&& ~~~low ≠ 0#64 then
      return .error (.invalidValue (.unsigned bits.toNat) s!"a value that fits in {width.toNat} bits")
    else do
      let s ← new width bits
      return .ok s

/-- What words are written as. -/
def serialize (codec : Codec τ ε) (s : Stored) : String :=
  codec.write "BitVector" [("width", s.width.toNat), ("bits", s.bits.toNat)]

/-- What is beyond the mask of a width is what makes a value too large for it. -/
theorem beyond_mask_eq_zero_iff {w : Nat} (bits : BitVec 64) :
    bits &&& ~~~((BitVec.allOnes w).setWidth 64) = 0#64 ↔ bits.toNat < 2 ^ w := by
  have hbit (i : Nat) (hi : i < 64) : (bits &&& ~~~((BitVec.allOnes w).setWidth 64)).getLsbD i =
      (bits.getLsbD i && !decide (i < w)) := by
    simp [hi]
  constructor
  · intro h
    apply Nat.lt_pow_two_of_testBit
    intro i hi
    by_cases hword : i < 64
    · have hbeyond := hbit i hword
      rw [h, BitVec.getLsbD_zero, decide_eq_false (Nat.not_lt.mpr hi), Bool.not_false, Bool.and_true] at hbeyond
      exact hbeyond.symm
    · exact BitVec.getLsbD_of_ge bits i (Nat.not_lt.mp hword)
  · intro h
    apply BitVec.eq_of_getLsbD_eq
    intro i hi
    rw [hbit i hi, BitVec.getLsbD_zero]
    by_cases hlow : i < w
    · rw [decide_eq_true hlow, Bool.not_true, Bool.and_false]
    · have hbeyond : bits.toNat.testBit i = false :=
        Nat.testBit_lt_two_pow (Nat.lt_of_lt_of_le h (Nat.pow_le_pow_right (by decide) (Nat.not_lt.mp hlow)))
      rw [BitVec.getLsbD, hbeyond, Bool.false_and]

/-- Words and numbers are judged alike, and no step of it breaks off. -/
theorem ofParts_eq (width : BitVec 32) (bits : BitVec 64) :
    ofParts width bits = .ok ((Bits.ofParts width.toNat bits.toNat).map of) := by
  rw [ofParts]
  split
  case isTrue hwide =>
    rw [Bits.ofParts_of_lt hwide]
    rfl
  case isFalse hwidth =>
    have hle := Nat.not_lt.mp hwidth
    have hmask := mask_width hle
    rw [BitVec.ofNat_toNat, BitVec.setWidth_eq] at hmask
    rw [hmask, Bits.ofParts_of_le hle, Checked.ok_bind]
    split
    case isTrue hstray =>
      rw [if_neg (mt (beyond_mask_eq_zero_iff bits).mpr hstray)]
      rfl
    case isFalse hstray =>
      rw [if_pos ((beyond_mask_eq_zero_iff bits).mp (not_not.mp hstray)), new_of_le hle]
      have hnumber : BitVec.ofNat width.toNat bits.toNat = bits.setWidth width.toNat := by rw [BitVec.ofNat_toNat]
      rw [hnumber]
      rfl

end Stored

end RiscvSemantics
