namespace RiscvSemantics

theorem toNat_append {m n : Nat} (high : BitVec m) (low : BitVec n) :
    (high ++ low).toNat = high.toNat <<< n + low.toNat := by
  rw [BitVec.toNat_append, Nat.shiftLeft_add_eq_or_of_lt low.isLt]

/-- A number that is written in so many bits. -/
structure Piece where
  value : Nat
  width : Nat

namespace Piece

/-- The pieces side by side in one number, the first one lowest. -/
def pack : List Piece → Nat
  | [] => 0
  | piece :: rest => pack rest <<< piece.width + piece.value

/-- Cuts a number into pieces of the given widths, from the lowest bits up. -/
def unpack : List Nat → Nat → List Piece
  | [], _ => []
  | width :: widths, n => ⟨n % (1 <<< width), width⟩ :: unpack widths (n >>> width)

/-- How many bits pieces of these widths have together. -/
def totalWidth : List Nat → Nat
  | [] => 0
  | width :: widths => width + totalWidth widths

/-- Every number fits in its bits. -/
def Fit (pieces : List Piece) : Prop :=
  ∀ piece ∈ pieces, piece.value < 1 <<< piece.width

theorem mod_lt (n width : Nat) : n % (1 <<< width) < 1 <<< width := by
  rw [Nat.shiftLeft_eq, Nat.one_mul]
  exact Nat.mod_lt n (Nat.two_pow_pos width)

@[simp] theorem fit_nil : Fit [] := nofun

@[simp] theorem fit_cons {piece : Piece} {rest : List Piece} :
    Fit (piece :: rest) ↔ piece.value < 1 <<< piece.width ∧ Fit rest :=
  List.forall_mem_cons

/-- Cutting off the lowest piece and putting it back. -/
theorem join_split (n width : Nat) : (n >>> width) <<< width + n % (1 <<< width) = n := by
  rw [Nat.shiftLeft_eq, Nat.shiftLeft_eq, Nat.one_mul, Nat.shiftRight_eq_div_pow, Nat.mul_comm]
  exact Nat.div_add_mod ..

theorem split_join {low width : Nat} (high : Nat) (hlow : low < 1 <<< width) :
    (high <<< width + low) >>> width = high ∧ (high <<< width + low) % (1 <<< width) = low := by
  rw [Nat.shiftLeft_eq, Nat.one_mul] at hlow
  rw [Nat.shiftLeft_eq, Nat.shiftLeft_eq, Nat.one_mul, Nat.shiftRight_eq_div_pow]
  constructor
  · rw [Nat.mul_comm, Nat.mul_add_div (Nat.two_pow_pos width), Nat.div_eq_of_lt hlow, Nat.add_zero]
  · rw [Nat.mul_add_mod', Nat.mod_eq_of_lt hlow]

/-- A number that has no bits beyond the pieces is put together from them. -/
theorem pack_unpack {widths : List Nat} {n : Nat} (hn : n < 1 <<< totalWidth widths) :
    pack (unpack widths n) = n := by
  induction widths generalizing n with
  | nil => exact (Nat.lt_one_iff.mp hn).symm
  | cons width widths ih =>
    have hrest : n >>> width < 1 <<< totalWidth widths := by
      rw [totalWidth, Nat.add_comm, Nat.shiftLeft_add, Nat.shiftLeft_eq _ width] at hn
      rw [Nat.shiftRight_eq_div_pow]
      exact Nat.div_lt_of_lt_mul (Nat.mul_comm .. ▸ hn)
    rw [unpack, pack, ih hrest]
    exact join_split n width

theorem eq_of_unpack (widths : List Nat) {m n : Nat} (hm : m < 1 <<< totalWidth widths)
    (hn : n < 1 <<< totalWidth widths) (hunpack : unpack widths m = unpack widths n) : m = n := by
  rw [← pack_unpack hm, hunpack, pack_unpack hn]

theorem unpack_pack (pieces : List Piece) (hfit : Fit pieces) :
    unpack (pieces.map Piece.width) (pack pieces) = pieces := by
  induction pieces with
  | nil => rfl
  | cons piece rest ih =>
    obtain ⟨hpiece, hrest⟩ := fit_cons.mp hfit
    obtain ⟨hhigh, hlow⟩ := split_join (pack rest) hpiece
    rw [List.map_cons, pack, unpack, hhigh, hlow, ih hrest]

end Piece

end RiscvSemantics
