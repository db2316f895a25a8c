import RiscvSemantics.Proofs.Bits.Pieces
import RiscvSemantics.Rv32.Encoding

namespace RiscvSemantics.Rv32

namespace Word

/-- Some neighbouring bits of a word, as a number. -/
def field (w : Word) (low width : Nat) : Int :=
  (w.extractLsb' low width).toNat

/-- What a load adds to the base. The sign of each offset is the highest bit of the
    word. -/
def loadOffset (w : Word) : Int :=
  w.field 20 11 - 2048 * w.field 31 1

def storeOffset (w : Word) : Int :=
  w.field 7 5 + 32 * w.field 25 6 - 2048 * w.field 31 1

/-- How far a branch goes. -/
def branchOffset (w : Word) : Int :=
  2 * w.field 8 4 + 32 * w.field 25 6 + 2048 * w.field 7 1 - 4096 * w.field 31 1

def jumpOffset (w : Word) : Int :=
  2 * w.field 21 10 + 2048 * w.field 20 1 + 4096 * w.field 12 8 - 1048576 * w.field 31 1

section Fields

variable (w : Word)

theorem toNat_quadrant : w.quadrant.toNat = w.toNat % 4 := by
  rw [quadrant, BitVec.extractLsb'_toNat, Nat.shiftRight_zero]

theorem toNat_major : w.major.toNat = w.toNat >>> 2 % 32 :=
  BitVec.extractLsb'_toNat ..

theorem toNat_rd : w.rd.toNat = w.toNat >>> 7 % 32 :=
  BitVec.extractLsb'_toNat ..

theorem toNat_funct3 : w.funct3.toNat = w.toNat >>> 12 % 8 :=
  BitVec.extractLsb'_toNat ..

theorem toNat_rs1 : w.rs1.toNat = w.toNat >>> 15 % 32 :=
  BitVec.extractLsb'_toNat ..

theorem toNat_rs2 : w.rs2.toNat = w.toNat >>> 20 % 32 :=
  BitVec.extractLsb'_toNat ..

theorem toNat_funct7 : w.funct7.toNat = w.toNat >>> 25 % 128 :=
  BitVec.extractLsb'_toNat ..

theorem toNat_immI : w.immI.toNat = w.toNat >>> 20 % 4096 :=
  BitVec.extractLsb'_toNat ..

theorem toNat_immS : w.immS.toNat = Piece.pack [⟨w.toNat >>> 7 % 32, 5⟩, ⟨w.toNat >>> 25 % 128, 7⟩] := by
  simp only [immS, toNat_append, BitVec.extractLsb'_toNat, Piece.pack, Nat.zero_shiftLeft, Nat.zero_add,
    Nat.reducePow]

theorem toNat_immB : w.immB.toNat =
    Piece.pack [⟨0, 1⟩, ⟨w.toNat >>> 8 % 16, 4⟩, ⟨w.toNat >>> 25 % 64, 6⟩, ⟨w.toNat >>> 7 % 2, 1⟩,
      ⟨w.toNat >>> 31 % 2, 1⟩] := by
  simp only [immB, toNat_append, BitVec.extractLsb'_toNat, BitVec.toNat_ofNat, Piece.pack, Nat.zero_shiftLeft,
    Nat.zero_add, Nat.reducePow, Nat.zero_mod]

theorem toNat_immU : w.immU.toNat = w.toNat >>> 12 % 1048576 :=
  BitVec.extractLsb'_toNat ..

theorem toNat_immJ : w.immJ.toNat =
    Piece.pack [⟨0, 1⟩, ⟨w.toNat >>> 21 % 1024, 10⟩, ⟨w.toNat >>> 20 % 2, 1⟩, ⟨w.toNat >>> 12 % 256, 8⟩,
      ⟨w.toNat >>> 31 % 2, 1⟩] := by
  simp only [immJ, toNat_append, BitVec.extractLsb'_toNat, BitVec.toNat_ofNat, Piece.pack, Nat.zero_shiftLeft,
    Nat.zero_add, Nat.reducePow, Nat.zero_mod]

end Fields

theorem toInt_sign (b : BitVec 1) : b.toInt = -(b.toNat : Int) := by
  have hlt := b.isLt
  rw [BitVec.toInt_eq_toNat_cond]
  omega

theorem toInt_immI (w : Word) : w.immI.toInt = w.loadOffset := by
  have hsize := w.isLt
  simp only [immI, loadOffset, field, BitVec.toInt_eq_toNat_cond, BitVec.extractLsb'_toNat,
    Nat.shiftRight_eq_div_pow]
  omega

theorem toInt_immS (w : Word) : w.immS.toInt = w.storeOffset := by
  have hsize := w.isLt
  rw [immS, BitVec.toInt_append, if_neg (by decide), BitVec.toInt_eq_toNat_cond]
  simp only [storeOffset, field, BitVec.extractLsb'_toNat, Nat.shiftRight_eq_div_pow]
  omega

theorem toInt_immB (w : Word) : w.immB.toInt = w.branchOffset := by
  simp only [immB, BitVec.toInt_append, toInt_sign, branchOffset, field]
  simp only [Nat.reduceAdd, Nat.reduceBEq, Bool.false_eq_true, if_false, BitVec.toNat_ofNat]
  omega

theorem toInt_immJ (w : Word) : w.immJ.toInt = w.jumpOffset := by
  simp only [immJ, BitVec.toInt_append, toInt_sign, jumpOffset, field]
  simp only [Nat.reduceAdd, Nat.reduceBEq, Bool.false_eq_true, if_false, BitVec.toNat_ofNat]
  omega

/-- Adding with sign extension is adding integers. -/
theorem add_signExtend {n : Nat} (a : BitVec 32) (i : BitVec n) :
    a + i.signExtend 32 = BitVec.ofInt 32 (a.toNat + i.toInt) := by
  rw [BitVec.ofInt_add, BitVec.signExtend, BitVec.ofInt_natCast, BitVec.ofNat_toNat, BitVec.setWidth_eq]

end Word

end RiscvSemantics.Rv32
