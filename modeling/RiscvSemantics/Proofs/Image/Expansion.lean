import RiscvSemantics.Proofs.Image.Placed

namespace RiscvSemantics.Image

open Hart Interpretation
open Dialogue (makeAll)

section LaidOut

variable {width : Nat} {base : Nat} {ws : List (BitVec 32)} {before after : View width}

/-- Words have been laid out from a base on. Addresses wrap around, and of the bytes for one address
    the last is there. What falls beyond the memory is lost and raises a store fault, unless a cause
    is pending. All else is as before. -/
structure LaidOut (base : Nat) (ws : List (BitVec 32)) (before after : View width) : Prop where
  written : ∀ j < 4 * ws.length, (base + j) % 2 ^ width < before.ram.size →
    (∀ k < 4 * ws.length, j < k → (base + k) % 2 ^ width ≠ (base + j) % 2 ^ width) →
      after.byte ((base + j) % 2 ^ width) = (byteAt ws j).toNat
  kept : ∀ address, (∀ j < 4 * ws.length, (base + j) % 2 ^ width ≠ address) →
    after.byte address = before.byte address
  size : after.ram.size = before.ram.size
  others : after = { before with ram := after.ram, trap := after.trap }
  trap_inside : (∀ j < 4 * ws.length, (base + j) % 2 ^ width < before.ram.size) → after.trap = before.trap
  trap_beyond : (∃ j < 4 * ws.length, before.ram.size ≤ (base + j) % 2 ^ width) →
    after.trap = some (before.trap.getD .storeFault)

theorem byte_ofNat_bytesOfWords {j : Nat} (hj : j < 4 * ws.length) :
    (UInt8.ofNat ((bytesOfWords ws).getD j 0#8).toNat).toNat = (byteAt ws j).toNat := by
  have hlt : j < (bytesOfWords ws).length := (length_bytesOfWords ws).symm ▸ hj
  rw [List.getD_eq_getElem _ _ hlt, getElem_bytesOfWords, UInt8.toNat_ofNat']
  exact Nat.mod_eq_of_lt (byteAt ws j).isLt

theorem laidOut_of_setBytes
    (hview : after = (before.setBytes (fun k => (base + k) % 2 ^ width)
      (fun k => UInt8.ofNat ((bytesOfWords ws).getD k 0#8).toNat) (4 * ws.length)).raiseIf
        (∃ k < 4 * ws.length, before.ram.size ≤ (base + k) % 2 ^ width) .storeFault) :
    LaidOut base ws before after := by
  obtain ⟨ram, hset, hsize⟩ := before.setBytes_eq (fun k => (base + k) % 2 ^ width)
    (fun k => UInt8.ofNat ((bytesOfWords ws).getD k 0#8).toNat) (4 * ws.length)
  constructor
  case written =>
    intro j hj hinside hlast
    rw [hview]
    have hbyte := before.byte_setBytes_of_last (fun k => (base + k) % 2 ^ width)
      (fun k => UInt8.ofNat ((bytesOfWords ws).getD k 0#8).toNat) (4 * ws.length)
      (fun k hjk hk => hlast k hk hjk) hj hinside
    exact hbyte.trans (byte_ofNat_bytesOfWords hj)
  case kept =>
    intro address hne
    rw [hview]
    exact before.byte_setBytes_of_ne _ _ _ fun j hj => (hne j hj).symm
  case size =>
    rw [hview, hset]
    exact hsize
  case others =>
    rw [hview, hset]
    rfl
  case trap_inside =>
    intro hinside
    rw [hview, View.raiseIf_of_neg, hset]
    rintro ⟨j, hj, hbeyond⟩
    exact Nat.not_lt.mpr hbeyond (hinside j hj)
  case trap_beyond =>
    intro hbeyond
    rw [hview, View.raiseIf_of_pos _ _ hbeyond, hset]
    change before.trap.or (some .storeFault) = _
    cases before.trap <;> rfl

end LaidOut

/-- How loading words ends on a hart: with their number of bytes, if no cause was pending and all bytes
    fell into the memory, and with the cause that is pending otherwise. -/
structure Concludes {x : Xlen} (base : Nat) (ws : List (BitVec 32)) (before : Hart x)
    (answer : Except (Stop (Error Cause)) Nat) (after : Hart x) : Prop where
  ok_iff : answer = .ok (4 * ws.length) ↔
    before.trap = none ∧ ∀ j < 4 * ws.length, (base + j) % 2 ^ x.bits < before.ram.size
  failure : answer ≠ .ok (4 * ws.length) →
    answer = .error (.error (.trapped (before.trap.getD .storeFault) (4 * ws.length) base)) ∧
      after.trap = some (before.trap.getD .storeFault)

section Hart

variable {x : Xlen} {base : Nat} {ws : List (BitVec 32)} {before after : Hart x}

/-- A cause that was pending is the one that is reported, and a store fault otherwise. -/
theorem LaidOut.concludes (h : LaidOut base ws before.view after.view) :
    Concludes base ws before (verdict base (4 * ws.length) after.trap) after := by
  by_cases hgood : before.trap = none ∧ ∀ j < 4 * ws.length, (base + j) % 2 ^ x.bits < before.ram.size
  · have htrap : after.trap = none := (h.trap_inside hgood.2).trans hgood.1
    rw [htrap]
    exact ⟨iff_of_true rfl hgood, fun hne => absurd rfl hne⟩
  · have htrap : after.trap = some (before.trap.getD .storeFault) := by
      by_cases hinside : ∀ j < 4 * ws.length, (base + j) % 2 ^ x.bits < before.ram.size
      · cases hbefore : before.trap with
        | none => exact absurd ⟨hbefore, hinside⟩ hgood
        | some cause => exact (h.trap_inside hinside).trans hbefore
      · simp only [not_forall, Nat.not_lt] at hinside
        obtain ⟨j, hj, hbeyond⟩ := hinside
        exact h.trap_beyond ⟨j, hj, hbeyond⟩
    rw [htrap]
    exact ⟨iff_of_false nofun hgood, fun _ => ⟨rfl, htrap⟩⟩

/-- Loading an image stores exactly its words on a hart. Byte by byte and in order they are written from
    the base on, each one behind the other; it fails only if a cause was pending or some byte fell beyond
    the memory, and only once all have been written. Whether a line counts its copies of a word or has
    them on lines of their own makes no difference; with a count of zero the line can go. -/
theorem image_is_expanded {file : ByteArray} (himage : IsImage file ws) (base : Nat) (before : Hart x) :
    (∃ answer after, (load base file : Interpretation (Hart x) (Error Cause) Nat) before = (answer, after) ∧
      LaidOut base ws before.view after.view ∧ Concludes base ws before answer after ∧
        ∀ record,
          (load base file : Interpretation (Recorded (Hart x) Cause) (Error Cause) Nat) ⟨before, record⟩ =
            (answer, ⟨after, record ++ ((layout (Hart x) base ws).map Change.access).toArray⟩)) ∧
      ∀ other, Unrolled file other → IsImage other ws ∧
        (load base other : Interpretation (Hart x) (Error Cause) Nat) = load base file := by
  constructor
  · obtain ⟨next, after, hstore, hview⟩ := before.exists_of_storeWords ws base
    have hlaid := laidOut_of_setBytes hview
    have hindexed : ∀ c ∈ layout (Hart x) base ws, c.WellIndexed := fun _ => wellIndexed_of_mem_layout
    obtain ⟨after', -, hmake⟩ := Dialogue.exists_makeAll (Hart.faultless x) hindexed trivial
    -- What the changes lead to is what storing the bytes leads to.
    obtain rfl : after = after' := by
      have hdone := congrFun (storeWords_then ws base (pure () : Dialogue Cause (Error Cause) Unit)) before
      rw [bind_of_ok (act_of_ok hstore), (hmake _).1] at hdone
      exact congrArg Prod.snd hdone
    obtain ⟨hrun, hrecorded⟩ := hmake (ending base (4 * ws.length) : Dialogue Cause (Error Cause) Nat)
    refine ⟨_, after, ?_, hlaid, hlaid.concludes, fun record => ?_⟩
    · rw [load_image himage, hrun]
      rfl
    · exact (congrFun (load_image himage base) _).trans (hrecorded record)
  · intro other hunrolled
    have hother := himage.of_unrolled hunrolled
    exact ⟨hother, (load_image hother base).trans (load_image himage base).symm⟩

/-- Three words fill the eight addresses of a hart from the seventh on; the memory ends before the
    eighth. The last word lies over the first. -/
theorem image_is_expanded_around_the_end :
    let file := "v2.0 raw\n2*04030201\n\n8070605\n".toUTF8
    let other := "v2.0 raw\n04030201\n04030201\n\n8070605\n".toUTF8
    let before := Hart.new ⟨3, by decide, by decide⟩ 7 Extensions.none
    ∃ after, (load 6 file : Interpretation (Hart _) (Error Cause) Nat) before =
        (.error (.error (.trapped .storeFault 12 6)), after) ∧
      after.view.byte 2 = 1 ∧ after.view.byte 6 = 5 ∧
      (load 6 other : Interpretation (Hart _) (Error Cause) Nat) before = load 6 file before := by
  intro file other before
  have hcount : Text.readNumeral 10 UInt64.size ['2'] = .ok 2 := rfl
  have hfirst : readWord "04030201".toList = .ok 0x04030201#32 := rfl
  have hlast : readWord (Text.trim "8070605".toList) = .ok 0x08070605#32 := rfl
  have htrim : Text.trim "2*04030201".toList = ['2'] ++ '*' :: "04030201".toList := by decide
  have hwords : Expands ["2*04030201".toUTF8.data.toList, "".toUTF8.data.toList, "8070605".toUTF8.data.toList]
      [0x04030201#32, 0x04030201#32, 0x08070605#32] :=
    .cons (.copies (hasText_toUTF8 _) htrim hcount hfirst)
      (.cons (.blank (hasText_toUTF8 "") rfl) (.cons (.word (hasText_toUTF8 _) hlast) .nil))
  have hlines : lines file.data.toList = "v2.0 raw".toUTF8.data.toList ::
      ["2*04030201".toUTF8.data.toList, "".toUTF8.data.toList, "8070605".toUTF8.data.toList] := by
    decide +kernel
  have hother : lines other.data.toList = "v2.0 raw".toUTF8.data.toList ::
      ([] ++ (List.replicate 2 "04030201".toUTF8.data.toList ++
        ["".toUTF8.data.toList, "8070605".toUTF8.data.toList])) := by
    decide +kernel
  have hunrolled : Unrolled file other :=
    .intro hlines hother (hasText_toUTF8 _) htrim hcount hfirst (hasText_toUTF8 _) (by decide)
  obtain ⟨⟨answer, after, hload, hlaid, hconcludes, -⟩, hsame⟩ :=
    image_is_expanded ⟨hlines, isHeader_header, hwords⟩ 6 before
  have hsize : before.ram.size = 7 := Ram.size_zeros 7
  have hfails : answer ≠ .ok 12 := by
    intro hok
    have hinside := (hconcludes.ok_iff.mp hok).2 1 (by decide)
    rw [hsize] at hinside
    exact absurd hinside (by decide)
  have hinside (address : Nat) (hlt : address < 7) : address < before.view.ram.size :=
    Nat.lt_of_lt_of_eq hlt hsize.symm
  refine ⟨after, ?_, ?_, ?_, congrFun (hsame other hunrolled).2 before⟩
  · rw [hload, (hconcludes.failure hfails).1]
    rfl
  · exact hlaid.written 4 (by decide) (hinside 2 (by decide)) (by decide)
  · exact hlaid.written 8 (by decide) (hinside 6 (by decide)) (by decide)

end Hart

end RiscvSemantics.Image
