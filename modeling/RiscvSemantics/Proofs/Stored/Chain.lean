import RiscvSemantics.Proofs.Bits.Width
import RiscvSemantics.Proofs.Stored.Shift
import RiscvSemantics.Proofs.Stored.Slice

namespace RiscvSemantics

namespace Stored

def binary : BinaryOp → Stored → Stored → Checked Stored
  | .and, s, t => s.and t
  | .or, s, t => s.or t
  | .xor, s, t => s.xor t
  | .add, s, t => s.add t
  | .sub, s, t => s.sub t
  | .mul, s, t => s.mul t
  | .mulHighSigned, s, t => s.mulHighSigned t
  | .mulHighUnsigned, s, t => s.mulHighUnsigned t
  | .mulHighSignedUnsigned, s, t => s.mulHighSignedUnsigned t
  | .divUnsigned, s, t => s.divUnsigned t
  | .divSigned, s, t => s.divSigned t
  | .remUnsigned, s, t => s.remUnsigned t
  | .remSigned, s, t => s.remSigned t
  | .shiftLeft, s, t => s.shiftLeft t.bits
  | .shiftRight, s, t => s.shiftRight t.bits
  | .shiftRightSigned, s, t => s.shiftRightSigned t.bits
  | .rotate, s, t => s.rotateBy t
  | .equal, s, t => s.equal t
  | .lessUnsigned, s, t => s.lessUnsigned t
  | .lessSigned, s, t => s.lessSigned t

def unary : UnaryOp → Stored → Checked Stored
  | .not, s => s.not
  | .neg, s => s.neg

/-- The ways to make a vector. -/
inductive Creation where
  | new (width : BitVec 32) (value : BitVec 64)
  | ofSigned (width : BitVec 32) (value : BitVec 64)
  | zero (width : BitVec 32)
  | allOnes (width : BitVec 32)
  | ofBool (b : Bool)

/-- The operations on one vector. The amounts of `shift` and `rotate` are signed. -/
inductive Alteration where
  | shift (amount : BitVec 64)
  | shiftLeft (amount : BitVec 64)
  | shiftRight (amount : BitVec 64)
  | shiftRightSigned (amount : BitVec 64)
  | rotate (amount : BitVec 64)
  | extract (start width : BitVec 32)
  | truncate (width : BitVec 32)
  | zeroExtend (width : BitVec 32)
  | signExtend (width : BitVec 32)
  | unary (op : UnaryOp)

/-- The operations on two vectors. -/
inductive Pairing where
  | concat
  | binary (op : BinaryOp)

/-- A computation with vectors: operations on the results of operations, down to vectors that are
    made from numbers. -/
inductive Chain where
  | create (creation : Creation)
  | alter (alteration : Alteration) (chain : Chain)
  | pair (pairing : Pairing) (left right : Chain)

/-- A width that is asked for. -/
def fitting (width : BitVec 32) : Except Fault Nat :=
  if width.toNat ≤ 64 then .ok width.toNat else .error .vectorTooWide

namespace Creation

def perform : Creation → Checked Stored
  | .new width value => Stored.new width value
  | .ofSigned width value => Stored.ofSigned width value
  | .zero width => Stored.zero width
  | .allOnes width => Stored.allOnes width
  | .ofBool b => Stored.ofBool b

def apply : Creation → Except Fault Bits
  | .new width value => Bits.ofNat width.toNat value.toNat
  | .ofSigned width value => Bits.ofInt width.toNat value.toInt
  | .zero width => Bits.zero width.toNat
  | .allOnes width => Bits.allOnes width.toNat
  | .ofBool b => .ok (Bits.ofBool b)

/-- The documented width, or the fault. -/
def width : Creation → Except Fault Nat
  | .new width _ | .ofSigned width _ | .zero width | .allOnes width => fitting width
  | .ofBool _ => .ok 1

end Creation

namespace Alteration

def perform : Alteration → Stored → Checked Stored
  | .shift amount, s => s.shift amount
  | .shiftLeft amount, s => s.shiftLeft amount
  | .shiftRight amount, s => s.shiftRight amount
  | .shiftRightSigned amount, s => s.shiftRightSigned amount
  | .rotate amount, s => s.rotate amount
  | .extract start width, s => s.extract start width
  | .truncate width, s => s.truncate width
  | .zeroExtend width, s => s.zeroExtend width
  | .signExtend width, s => s.signExtend width
  | .unary op, s => Stored.unary op s

def apply : Alteration → Bits → Except Fault Bits
  | .shift amount, a => .ok (a.shift amount.toInt)
  | .shiftLeft amount, a => .ok (a.shiftLeft amount.toNat)
  | .shiftRight amount, a => .ok (a.shiftRight amount.toNat)
  | .shiftRightSigned amount, a => .ok (a.shiftRightSigned amount.toNat)
  | .rotate amount, a => .ok (a.rotate amount.toInt)
  | .extract start width, a => a.extract start.toNat width.toNat
  | .truncate width, a => a.truncate width.toNat
  | .zeroExtend width, a => a.zeroExtend width.toNat
  | .signExtend width, a => a.signExtend width.toNat
  | .unary op, a => .ok (op.apply a)

/-- The documented width of what comes of a vector of a given width, or the fault. -/
def width : Alteration → Nat → Except Fault Nat
  | .extract _ width, _ => fitting width
  | .truncate width, w => if width.toNat ≤ w then .ok width.toNat else .error .wideningTruncation
  | .zeroExtend width, w => if width.toNat < w then .error .narrowingZeroExtension else fitting width
  | .signExtend width, w => if width.toNat < w then .error .narrowingSignExtension else fitting width
  | .shift _, w | .shiftLeft _, w | .shiftRight _, w | .shiftRightSigned _, w | .rotate _, w
  | .unary _, w => .ok w

end Alteration

namespace Pairing

def perform : Pairing → Stored → Stored → Checked Stored
  | .concat, s, t => s.concat t
  | .binary op, s, t => Stored.binary op s t

def apply : Pairing → Bits → Bits → Except Fault Bits
  | .concat, a, b => a.concat b
  | .binary op, a, b => op.apply a b

/-- The documented width of what comes of two vectors of given widths, or the fault. -/
def width : Pairing → Nat → Nat → Except Fault Nat
  | .concat, w, v => if w + v ≤ 64 then .ok (w + v) else .error .concatenationTooWide
  | .binary op, w, v => op.width w v

end Pairing

namespace Chain

/-- The chain carried out on words. -/
def perform : Chain → Checked Stored
  | .create creation => creation.perform
  | .alter alteration chain => do
    let s ← chain.perform
    alteration.perform s
  | .pair pairing left right => do
    let s ← left.perform
    let t ← right.perform
    pairing.perform s t

/-- The chain carried out on vectors. -/
def apply : Chain → Except Fault Bits
  | .create creation => creation.apply
  | .alter alteration chain => do
    let a ← chain.apply
    alteration.apply a
  | .pair pairing left right => do
    let a ← left.apply
    let b ← right.apply
    pairing.apply a b

/-- The documented width of the last vector of the chain, or the first fault on the way to it. -/
def width : Chain → Except Fault Nat
  | .create creation => creation.width
  | .alter alteration chain => do
    let w ← chain.width
    alteration.width w
  | .pair pairing left right => do
    let w ← left.width
    let v ← right.width
    pairing.width w v

end Chain

/-- Words give what vectors give, and the width is as documented. -/
structure Agrees (words : Checked Stored) (vectors : Except Fault Bits) (width : Except Fault Nat) :
    Prop where
  words : words = embed vectors
  width : vectors.map Bits.width = width

theorem Agrees.bind {words : Checked Stored} {vectors : Except Fault Bits} {width : Except Fault Nat}
    {f : Stored → Checked Stored} {g : Bits → Except Fault Bits} {h : Nat → Except Fault Nat}
    (hfirst : Agrees words vectors width) (hrest : ∀ a, Agrees (f (of a)) (g a) (h a.width)) :
    Agrees (words >>= f) (vectors >>= g) (width >>= h) := by
  obtain ⟨rfl, rfl⟩ := hfirst
  cases vectors with
  | error fault => exact ⟨rfl, rfl⟩
  | ok a => exact hrest a

theorem map_width_fitting {width : BitVec 32} (x : BitVec width.toNat) :
    Except.map Bits.width
      (if h : width.toNat ≤ 64 then .ok ⟨width.toNat, x, h⟩ else .error Fault.vectorTooWide) =
      fitting width := by
  rw [fitting]
  split <;> rfl

theorem binary_of (op : BinaryOp) (a b : Bits) : binary op (of a) (of b) = embed (op.apply a b) := by
  have hbits : (of b).bits.toNat = b.toNat := BitVec.toNat_setWidth_of_le b.width_le
  cases op with
  | and => exact and_of a b
  | or => exact or_of a b
  | xor => exact xor_of a b
  | add => exact add_of a b
  | sub => exact sub_of a b
  | mul => exact mul_of a b
  | mulHighSigned => exact mulHighSigned_of a b
  | mulHighUnsigned => exact mulHighUnsigned_of a b
  | mulHighSignedUnsigned => exact mulHighSignedUnsigned_of a b
  | divUnsigned => exact divUnsigned_of a b
  | divSigned => exact divSigned_of a b
  | remUnsigned => exact remUnsigned_of a b
  | remSigned => exact remSigned_of a b
  | shiftLeft =>
    rw [binary, shiftLeft_of, hbits]
    rfl
  | shiftRight =>
    rw [binary, shiftRight_of, hbits]
    rfl
  | shiftRightSigned =>
    rw [binary, shiftRightSigned_of, hbits]
    rfl
  | rotate => exact rotateBy_of a b
  | equal => exact equal_of a b
  | lessUnsigned => exact lessUnsigned_of a b
  | lessSigned => exact lessSigned_of a b

theorem unary_of (op : UnaryOp) (a : Bits) : unary op (of a) = .ok (of (op.apply a)) := by
  cases op with
  | not => exact not_of a
  | neg => exact neg_of a

theorem Creation.agrees (creation : Creation) : Agrees creation.perform creation.apply creation.width := by
  cases creation with
  | new width value => exact ⟨new_eq_embed fun _ => (BitVec.ofNat_toNat ..).symm, map_width_fitting _⟩
  | ofSigned width value =>
    refine ⟨new_eq_embed ?_, map_width_fitting _⟩
    intro hfits
    exact (value.signExtend_eq_setWidth_of_le hfits).symm
  | zero width => exact ⟨new_eq_embed fun _ => BitVec.setWidth_zero .., map_width_fitting _⟩
  | allOnes width => exact ⟨new_eq_embed setWidth_allOnes, map_width_fitting _⟩
  | ofBool b => exact ⟨ofBool_eq b, rfl⟩

theorem Alteration.agrees (alteration : Alteration) (a : Bits) :
    Agrees (alteration.perform (of a)) (alteration.apply a) (alteration.width a.width) := by
  cases alteration with
  | shift amount => exact ⟨shift_of a amount, congrArg Except.ok (Bits.width_shift ..)⟩
  | shiftLeft amount => exact ⟨shiftLeft_of a amount, congrArg Except.ok (Bits.width_shiftLeft ..)⟩
  | shiftRight amount => exact ⟨shiftRight_of a amount, congrArg Except.ok (Bits.width_shiftRight ..)⟩
  | shiftRightSigned amount => exact ⟨shiftRightSigned_of a amount, rfl⟩
  | rotate amount => exact ⟨rotate_of a amount, congrArg Except.ok (Bits.width_rotate ..)⟩
  | unary op => exact ⟨unary_of op a, congrArg Except.ok (op.width_apply a)⟩
  | extract start width => exact ⟨extract_of a start width, map_width_fitting _⟩
  | truncate width =>
    refine ⟨truncate_of a width, ?_⟩
    rw [Alteration.width, apply, Bits.truncate]
    split <;> rfl
  | zeroExtend width =>
    refine ⟨zeroExtend_of a width, ?_⟩
    rw [Alteration.width, apply, Bits.zeroExtend]
    split
    · rfl
    · exact map_width_fitting _
  | signExtend width =>
    refine ⟨signExtend_of a width, ?_⟩
    rw [Alteration.width, apply, Bits.signExtend]
    split
    · rfl
    · exact map_width_fitting _

theorem Pairing.agrees (pairing : Pairing) (a b : Bits) :
    Agrees (pairing.perform (of a) (of b)) (pairing.apply a b) (pairing.width a.width b.width) := by
  cases pairing with
  | concat =>
    refine ⟨concat_of a b, ?_⟩
    rw [Pairing.width, apply, Bits.concat]
    split <;> rfl
  | binary op => exact ⟨binary_of op a b, op.map_width_apply a b⟩

theorem Chain.agrees (chain : Chain) : Agrees chain.perform chain.apply chain.width := by
  induction chain with
  | create creation => exact creation.agrees
  | alter alteration chain ih => exact ih.bind alteration.agrees
  | pair pairing left right ihl ihr => exact ihl.bind fun a => ihr.bind fun b => pairing.agrees a b

/-- Every vector that a chain comes to is canonical, has the documented width and can be read. A
    chain breaks off exactly where a documented condition on widths fails, and with that fault: never
    because of what a machine word does not allow. -/
theorem Chain.canonical_or_at_fault (chain : Chain) :
    match chain.width with
    | .ok w => ∃ s a, chain.perform = .ok s ∧ chain.apply = .ok a ∧ s.Holds a ∧ s.width.toNat = w
    | .error fault => chain.perform = .error (.fault fault) ∧ chain.apply = .error fault := by
  obtain ⟨hwords, hwidth⟩ := chain.agrees
  rw [← hwidth]
  cases hvectors : chain.apply with
  | ok a =>
    rw [hvectors] at hwords
    exact ⟨of a, a, hwords, rfl, holds_of a, toNat_width a.width_le⟩
  | error fault =>
    rw [hvectors] at hwords
    exact ⟨hwords, rfl⟩

example : (Chain.alter (.rotate (BitVec.intMin 64)) (.create (.new 5#32 1#64))).perform = .ok ⟨5#32, 4#64⟩ := by
  decide

end Stored
end RiscvSemantics
