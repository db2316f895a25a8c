import RiscvSemantics.Proofs.Image.Stores

namespace RiscvSemantics.Image

open Interpretation
open Dialogue (makeAll)

variable {σ ε : Type} [Machine σ ε] {base : Nat} {file : ByteArray} {changes : List (Change ε)} {e : Error ε}

variable (σ) in
/-- Loading a file makes exactly these changes, in order, and then reports an error. Nothing is asked of
    the machine meanwhile, and no cause that is pending matters. A machine that does not fault leaves
    the record of these changes. -/
structure FailsAfter (base : Nat) (file : ByteArray) (changes : List (Change ε)) (e : Error ε) : Prop where
  held : (load base file : Interpretation σ (Error ε) Nat) = (makeAll changes (.done (.error (.error e)))).run
  recorded : ∀ {valid : σ → Prop}, Machine.Faultless valid → ∀ s, valid s →
    ∃ s', (load base file : Interpretation σ (Error ε) Nat) s = (.error (.error e), s') ∧
      ∀ record : Array (Access ε),
        (load base file : Interpretation (Recorded σ ε) (Error ε) Nat) ⟨s, record⟩ =
          (.error (.error e), ⟨s', record ++ (changes.map Change.access).toArray⟩)

theorem failsAfter_of_held (hindexed : ∀ c ∈ changes, c.WellIndexed)
    (hheld : (load base file : Interpretation σ (Error ε) Nat) =
      (makeAll changes (.done (.error (.error e)))).run)
    (hrecorded : (load base file : Interpretation (Recorded σ ε) (Error ε) Nat) =
      (makeAll changes (.done (.error (.error e)))).run) : FailsAfter σ base file changes e where
  held := hheld
  recorded := by
    intro valid hfaultless s hvalid
    obtain ⟨s', -, hnext⟩ := Dialogue.exists_makeAll hfaultless hindexed hvalid
    obtain ⟨hrun, hrun_recorded⟩ := hnext (.done (.error (.error e)) : Dialogue ε (Error ε) Nat)
    refine ⟨s', ?_, fun record => ?_⟩
    · rw [hheld, hrun]
      rfl
    · rw [hrecorded, hrun_recorded]
      rfl

variable (σ) in
theorem HeaderError.failsAfter (h : HeaderError file e) (base : Nat) : FailsAfter σ base file [] e :=
  failsAfter_of_held (fun _ hmem => absurd hmem List.not_mem_nil) (load_headerError h base)
    (load_headerError h base)

variable (σ) in
theorem FirstBad.failsAfter {good : List (List UInt8)} {ws : List (BitVec 32)} (h : FirstBad file good e)
    (hgood : Expands good ws) (base : Nat) : FailsAfter σ base file (layout σ base ws) e :=
  failsAfter_of_held (fun _ hmem => wellIndexed_of_mem_layout hmem) (load_firstBad h hgood base)
    (load_firstBad h hgood base)

variable (σ) in
/-- A file that is no image fails to load at the first place where something is wrong with it, and what
    comes behind does not matter. Without the header nothing is done to the machine. Otherwise the words
    of the lines in front of the first wrong one are stored, all of them and nothing else, whatever
    faults that raises; then the wrong line is reported, by its number if it is text. -/
theorem fails_at_first_bad_line (base : Nat) (file : ByteArray) :
    ((∃ ws, IsImage file ws) ∨ (∃ e : Error ε, HeaderError file e) ∨
        ∃ good, ∃ e : Error ε, FirstBad file good e) ∧
      (∀ e : Error ε, HeaderError file e → FailsAfter σ base file [] e) ∧
      ∀ good, ∀ e : Error ε, FirstBad file good e →
        (∃ ws, Expands good ws ∧ FailsAfter σ base file (layout σ base ws) e) ∧
          ∀ causeName, e = .notText ∨ ∃ reason,
            (e = .badCount (good.length + 2) reason ∧
                e.messages causeName = [s!"unable to parse count on line {good.length + 2}", reason.message]) ∨
              (e = .badWord (good.length + 2) reason ∧
                e.messages causeName = [s!"unable to parse value on line {good.length + 2}", reason.message]) := by
  refine ⟨isImage_or_error file, fun e h => h.failsAfter σ base, fun good e h => ⟨?_, fun causeName => ?_⟩⟩
  · obtain ⟨ws, hws⟩ := h.exists_expands
    exact ⟨ws, hws, h.failsAfter σ hws base⟩
  · obtain ⟨-, -, -, hbad⟩ := h
    exact hbad.messages_eq causeName

/-- Two words do not fit into the memory. The fourth line is reported all the same, and for its count. -/
theorem reports_count_of_fourth_line :
    let file := "v2.0 raw\n2*a\n\nq*zz\n7\n".toUTF8
    ∃ after, (load 0 file : Interpretation (Recorded (Hart .rv32) Cause) (Error Cause) Nat)
        ⟨Hart.new .rv32 4 Extensions.none, #[]⟩ =
      (.error (.error (.badCount 4 .invalidDigit)),
        ⟨after, ((layout (Hart .rv32) 0 [10#32, 10#32]).map Change.access).toArray⟩) := by
  intro file
  have hcopies : LineWords "2*a".toUTF8.data.toList [10#32, 10#32] := by
    have htrim : Text.trim "2*a".toList = ['2'] ++ '*' :: ['a'] := by decide
    have hcount : Text.readNumeral 10 UInt64.size ['2'] = .ok 2 := rfl
    exact .copies (hasText_toUTF8 "2*a") htrim hcount rfl
  have hblank : LineWords "".toUTF8.data.toList [] := .blank (hasText_toUTF8 "") rfl
  have hgood : Expands ["2*a".toUTF8.data.toList, "".toUTF8.data.toList] [10#32, 10#32] :=
    .cons hcopies (.cons hblank .nil)
  have hbad : LineError 4 "q*zz".toUTF8.data.toList (.badCount 4 .invalidDigit : Error Cause) := by
    have htrim : Text.trim "q*zz".toList = ['q'] ++ '*' :: ['z', 'z'] := by decide
    exact .count (hasText_toUTF8 "q*zz") htrim (by decide) rfl
  have hfirst : FirstBad file ["2*a".toUTF8.data.toList, "".toUTF8.data.toList]
      (.badCount 4 .invalidDigit : Error Cause) := by
    have hlines : lines file.data.toList = "v2.0 raw".toUTF8.data.toList ::
        (["2*a".toUTF8.data.toList, "".toUTF8.data.toList] ++ "q*zz".toUTF8.data.toList ::
          ["7".toUTF8.data.toList]) := by
      decide +kernel
    exact ⟨hlines, isHeader_header, exists_expands_iff.mp ⟨_, hgood⟩, hbad⟩
  obtain ⟨-, -, hfails⟩ := fails_at_first_bad_line (Hart .rv32) 0 file
  obtain ⟨⟨ws, hws, hafter⟩, -⟩ := hfails _ _ hfirst
  obtain rfl := hws.unique hgood
  obtain ⟨after, -, hrecorded⟩ :=
    hafter.recorded (Hart.faultless .rv32) (Hart.new .rv32 4 Extensions.none) trivial
  refine ⟨after, (hrecorded #[]).trans ?_⟩
  rw [Array.empty_append]

end RiscvSemantics.Image
