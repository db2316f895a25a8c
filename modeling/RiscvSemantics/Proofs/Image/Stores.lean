import Mathlib.Data.List.GetD
import RiscvSemantics.Proofs.Faultless.Machine
import RiscvSemantics.Proofs.Image.Format

namespace RiscvSemantics

namespace Dialogue

variable {σ ε δ α : Type} {changes : List (Change ε)}

/-- Changes that are made one after the other, whatever comes next. -/
def makeAll (changes : List (Change ε)) (next : Dialogue ε δ α) : Dialogue ε δ α :=
  changes.foldr make next

@[simp] theorem makeAll_nil (next : Dialogue ε δ α) : makeAll [] next = next := rfl

@[simp] theorem makeAll_cons (c : Change ε) (rest : List (Change ε)) (next : Dialogue ε δ α) :
    makeAll (c :: rest) next = make c (makeAll rest next) := rfl

/-- A machine that does not fault comes to one state through the changes, whatever comes next, and a
    record gains the changes, in order. -/
theorem exists_makeAll [Machine σ ε] {valid : σ → Prop} (hfaultless : Machine.Faultless valid)
    (hindexed : ∀ c ∈ changes, c.WellIndexed) {s : σ} (hvalid : valid s) :
    ∃ s', valid s' ∧ ∀ {δ α : Type} (next : Dialogue ε δ α),
      (makeAll changes next).run s = next.run s' ∧ ∀ record : Array (Access ε),
        (makeAll changes next).run (⟨s, record⟩ : Recorded σ ε) =
          next.run ⟨s', record ++ (changes.map Change.access).toArray⟩ := by
  induction changes generalizing s with
  | nil => exact ⟨s, hvalid, fun _ => ⟨rfl, fun _ => congrArg _ (congrArg _ Array.append_empty.symm)⟩⟩
  | cons c rest ih =>
    obtain ⟨hfirst, hrest⟩ := List.forall_mem_cons.mp hindexed
    obtain ⟨t, hmake, ht⟩ := hfaultless.make hvalid hfirst
    obtain ⟨s', hs', hnext⟩ := ih hrest ht
    refine ⟨s', hs', fun next => ⟨?_, fun record => ?_⟩⟩
    · rw [makeAll_cons, run_make hmake]
      exact (hnext next).1
    · rw [makeAll_cons, run_make (Recorded.make_eq hmake record), (hnext next).2, List.map_cons,
        List.toArray_cons, Array.push_eq_append, Array.append_assoc]

end Dialogue

namespace Image

open Interpretation
open Dialogue (makeAll)

variable {σ ε : Type} {line : List UInt8} {good rest : List (List UInt8)} {ws : List (BitVec 32)}

/-- Byte `j` of words of which the first comes first, and of each word the lowest byte. -/
def byteAt (ws : List (BitVec 32)) (j : Nat) : BitVec 8 :=
  (ws.getD (j / 4) 0#32).extractLsb' (8 * (j % 4)) 8

theorem getElem_bytesOfWords (ws : List (BitVec 32)) {j : Nat} (hj : j < (bytesOfWords ws).length) :
    (bytesOfWords ws)[j] = byteAt ws j := by
  have hlength := length_bytesOfWords ws
  have hindex : j / 4 < ws.length := by omega
  have hbyte := getD_bytesOfWords hindex (Nat.mod_lt j (by decide))
  rw [Nat.div_add_mod, List.getD_eq_getElem _ _ hj] at hbyte
  rw [hbyte, byteAt, List.getD_eq_getElem _ _ hindex]

variable [Machine σ ε]

variable (σ) in
/-- The change that puts a byte at an address. -/
def storing (address : Nat) (byte : BitVec 8) : Change ε :=
  .memory (Machine.word σ address) (Bits.ofByte byte)

variable (σ) in
/-- The changes that lay words from a base on: all bytes in order, each at the address behind the one
    before. -/
def layout (base : Nat) (ws : List (BitVec 32)) : List (Change ε) :=
  (List.range (4 * ws.length)).map fun j => storing σ (base + j) (byteAt ws j)

theorem wellIndexed_of_mem_layout {base : Nat} {c : Change ε} (hmem : c ∈ layout σ base ws) :
    c.WellIndexed := by
  obtain ⟨j, _, rfl⟩ := List.mem_map.mp hmem
  exact trivial

variable (σ) in
theorem advance_word (base n : Nat) : (Machine.word σ base).advance n = Machine.word σ (base + n) := by
  have hvalue : BitVec.ofNat (Machine.xlen σ) ((BitVec.ofNat (Machine.xlen σ) base).toNat + n) =
      BitVec.ofNat (Machine.xlen σ) (base + n) := by
    rw [BitVec.ofNat_add, BitVec.ofNat_toNat, BitVec.setWidth_eq, ← BitVec.ofNat_add]
  exact congrArg (Bits.mk (Machine.xlen σ) · Machine.xlen_le) hvalue

/-- Bytes are stored by one change each, at addresses one behind the other. -/
theorem storeBytes_then {δ α : Type} (bytes : List (BitVec 8)) (base : Nat)
    {f : Bits → Interpretation σ δ α} {next : Dialogue ε δ α}
    (hnext : f (Machine.word σ (base + bytes.length)) = next.run) :
    act (storeBytes bytes (Machine.word σ base)) >>= f =
      (makeAll (bytes.mapIdx fun j byte => storing σ (base + j) byte) next).run := by
  induction bytes generalizing base with
  | nil => exact hnext
  | cons byte rest ih =>
    have hbase : base + (byte :: rest).length = base + 1 + rest.length := by
      rw [List.length_cons, Nat.add_right_comm, Nat.add_assoc]
    have hrest : (fun j => storing σ (base + (j + 1)) : Nat → BitVec 8 → Change ε) =
        fun j => storing σ (base + 1 + j) := by
      funext j
      rw [Nat.add_right_comm, Nat.add_assoc]
    rw [hbase] at hnext
    rw [storeBytes, act_bind, bind_assoc, advance_word, ih (base + 1) hnext, List.mapIdx_cons, hrest]
    rfl

theorem mapIdx_bytesOfWords (base : Nat) (ws : List (BitVec 32)) :
    ((bytesOfWords ws).mapIdx fun j byte => storing σ (base + j) byte) = layout σ base ws := by
  refine List.ext_getElem ?_ fun j hj _ => ?_
  · rw [List.length_mapIdx, length_bytesOfWords, layout, List.length_map, List.length_range]
  · simp only [layout, List.getElem_mapIdx, List.getElem_map, List.getElem_range, getElem_bytesOfWords]

/-- So are words. -/
theorem storeWords_then {δ α : Type} (ws : List (BitVec 32)) (base : Nat) (next : Dialogue ε δ α) :
    (act (storeBytes (bytesOfWords ws) (Machine.word σ base)) >>= fun _ => next.run :
      Interpretation σ δ α) = (makeAll (layout σ base ws) next).run := by
  rw [← mapIdx_bytesOfWords]
  exact storeBytes_then (bytesOfWords ws) base rfl

section Lines

variable {e : Error ε}

/-- The words of a line are stored, and loading goes on behind them. -/
theorem loadLines_cons (h : LineWords line ws) (number : Nat) (address : Bits) (stored : Nat) :
    (loadLines number (line :: rest) address stored : Interpretation σ (Error ε) Nat) =
      act (storeBytes (bytesOfWords ws) address) >>= fun next =>
        loadLines (number + 1) rest next (stored + 4 * ws.length) := by
  obtain ⟨text, copies?, htext, hparse, rfl⟩ := h.exists_parseLine (ε := ε) number
  rw [loadLines, htext]
  change (checked (parseLine number text) >>= _) = _
  rw [hparse]
  cases copies? with
  | none => rfl
  | some copies =>
    change act (storeCopies (bytesOf copies.word) copies.count address) >>= _ = _
    rw [storeCopies_eq, ← bytesOfWords_copies, Option.elim_some, Repeat.words, List.length_replicate]

/-- So are the words of more lines. -/
theorem loadLines_append (h : Expands good ws) (number : Nat) (address : Bits) (stored : Nat) :
    (loadLines number (good ++ rest) address stored : Interpretation σ (Error ε) Nat) =
      act (storeBytes (bytesOfWords ws) address) >>= fun next =>
        loadLines (good.length + number) rest next (stored + 4 * ws.length) := by
  induction h generalizing number address stored with
  | nil =>
    rw [List.nil_append, List.length_nil, Nat.zero_add]
    rfl
  | @cons line others ws more hline _ ih =>
    rw [List.cons_append, loadLines_cons hline, bytesOfWords_append, storeBytes_append, act_bind, bind_assoc]
    refine congrArg (act (storeBytes (bytesOfWords ws) address) >>= ·) (funext fun next => ?_)
    rw [ih, List.length_cons, List.length_append, Nat.mul_add, Nat.add_assoc stored, Nat.add_assoc others.length,
      Nat.add_comm 1]

/-- Loading does not get past a line that something is wrong with. -/
theorem loadLines_bad {number : Nat} (h : LineError number line e) (address : Bits) (stored : Nat) :
    (loadLines number (line :: rest) address stored : Interpretation σ (Error ε) Nat) = throw (.error e) := by
  rw [loadLines, ← bind_assoc, ← checked_bind, h.read_eq]
  rfl

/-- The answer once everything is stored: an error if a cause is pending. -/
def verdict (base stored : Nat) : Option ε → Except (Stop (Error ε)) Nat
  | some cause => .error (.error (.trapped cause stored base))
  | none => .ok stored

/-- How loading ends once everything is stored. -/
def ending (base stored : Nat) : Dialogue ε (Error ε) Nat :=
  .look fun _ cause? => .done (verdict base stored cause?)

theorem run_ending (base stored : Nat) (s : σ) :
    (ending base stored).run s = (verdict base stored (Machine.pending s), s) := rfl

/-- Behind the header the lines are loaded. -/
theorem load_of_header {file : ByteArray} {first : List UInt8}
    (hlines : lines file.data.toList = first :: rest) (hheader : IsHeader first) (base : Nat) :
    (load base file : Interpretation σ (Error ε) Nat) =
      loadLines 2 rest (Machine.word σ base) 0 >>= fun stored => (ending base stored).run := by
  obtain ⟨text, htext, htrim⟩ := hheader
  rw [load, hlines]
  dsimp only
  rw [decodeLine_of_hasText htext]
  simp only [checked, pure_bind]
  rw [if_neg (fun hne => hne htrim)]
  refine congrArg (loadLines 2 rest (Machine.word σ base) 0 >>= ·) (funext fun stored => funext fun s => ?_)
  rw [run_ending]
  change (match Machine.pending s with
    | some cause => throw (Stop.error (Error.trapped cause stored base))
    | none => pure stored : Interpretation σ (Error ε) Nat) s = _
  cases Machine.pending s <;> rfl

/-- Loading makes the changes of the words and nothing else, and ends well unless a cause is pending. -/
theorem load_image {file : ByteArray} (h : IsImage file ws) (base : Nat) :
    (load base file : Interpretation σ (Error ε) Nat) =
      (makeAll (layout σ base ws) (ending base (4 * ws.length))).run := by
  obtain @⟨first, rest, hlines, hheader, hwords⟩ := h
  rw [load_of_header hlines hheader, ← List.append_nil rest, loadLines_append hwords, bind_assoc,
    ← storeWords_then, Nat.zero_add]
  rfl

/-- With a wrong line it makes the changes of the words in front of that and ends there. -/
theorem load_firstBad {file : ByteArray} (h : FirstBad file good e) (hgood : Expands good ws) (base : Nat) :
    (load base file : Interpretation σ (Error ε) Nat) =
      (makeAll (layout σ base ws) (.done (.error (.error e)))).run := by
  obtain ⟨hlines, hheader, -, hbad⟩ := h
  rw [load_of_header hlines hheader, loadLines_append hgood, bind_assoc, ← storeWords_then]
  refine congrArg (act (storeBytes (bytesOfWords ws) (Machine.word σ base)) >>= ·) (funext fun next => ?_)
  rw [loadLines_bad hbad]
  rfl

/-- Without the header it makes none. -/
theorem load_headerError {file : ByteArray} (h : HeaderError file e) (base : Nat) :
    (load base file : Interpretation σ (Error ε) Nat) = throw (.error e) := by
  cases h with
  | noLines hempty => rw [load, lines_eq_nil_iff.mpr hempty]
  | notText hlines htext =>
    rw [load, hlines]
    dsimp only
    rw [decodeLine_of_not_hasText htext]
    rfl
  | badHeader hlines htext htrim =>
    rw [load, hlines]
    dsimp only
    rw [decodeLine_of_hasText htext]
    simp only [checked, pure_bind]
    rw [if_pos htrim]
    rfl

/-- A file that is loaded is an image. The bytes of its words have been stored from the base on, and no
    cause is pending. -/
theorem exists_of_load_ok {base n : Nat} {file : ByteArray} {s s' : σ}
    (hload : load base file s = (.ok n, s')) :
    ∃ ws next, (words file : Except (Error ε) _) = .ok ws ∧ n = 4 * ws.length ∧
      (storeBytes (bytesOfWords ws) (Machine.word σ base) : Action σ Bits) s = (.ok next, s') ∧
      Machine.pending s' = none := by
  obtain ⟨ws, himage⟩ | ⟨e, herror⟩ | ⟨good, e, hbad⟩ := isImage_or_error (ε := ε) file
  · rw [load_image himage, ← storeWords_then] at hload
    obtain ⟨next, t, hstore, hending⟩ := exists_of_bind_ok hload
    rw [run_ending] at hending
    cases hpending : Machine.pending t with
    | some cause =>
      rw [hpending] at hending
      cases hending
    | none =>
      rw [hpending] at hending
      cases hending
      exact ⟨ws, next, himage.words_eq, rfl, ok_of_act_ok hstore, hpending⟩
  · rw [load_headerError herror] at hload
    cases hload
  · obtain ⟨ws, hgood⟩ := hbad.exists_expands
    rw [load_firstBad hbad hgood, ← storeWords_then] at hload
    obtain ⟨next, t, -, hfails⟩ := exists_of_bind_ok hload
    cases hfails

end Lines

end Image
end RiscvSemantics
