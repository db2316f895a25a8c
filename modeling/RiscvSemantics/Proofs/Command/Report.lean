import RiscvSemantics.Proofs.Command.Ending
import RiscvSemantics.Proofs.Command.State
import RiscvSemantics.Proofs.Image.Stores
import RiscvSemantics.Proofs.Run.Listening

namespace RiscvSemantics.Command

variable {a : Arguments} {file : ImageFile} {start other : Hart .rv32}

/-- The run that the arguments lead to starts: they name an instruction set of 32 bits, the image opens and is
    read, a memory of the size can be laid out and the words are loaded into it from the entry on. The hart is
    the one that the run starts on. -/
inductive Starts (a : Arguments) : ImageFile → Hart .rv32 → Prop where
  | intro {extensions : Extensions} {bytes : ByteArray} {stored : Nat} {loaded : Hart .rv32}
      (hisa : Isa.parse a.isa = .ok (32, extensions)) (hsize : a.ramSize ≤ largestMemory)
      (hload : (Image.load a.entry bytes : Interpretation (Hart .rv32) (Image.Error Cause) Nat)
        (Hart.new .rv32 a.ramSize extensions) = (.ok stored, loaded)) :
      Starts a (.content bytes) (loaded.putPc a.entry)

theorem Starts.exists_isa (h : Starts a file start) : ∃ extensions, Isa.parse a.isa = .ok (32, extensions) := by
  cases h with
  | intro hisa hsize hload => exact ⟨_, hisa⟩

/-- Loading would have failed on a pending cause. -/
theorem Starts.trap_eq (h : Starts a file start) : start.trap = none := by
  cases h with
  | intro hisa hsize hload =>
    obtain ⟨-, -, -, -, -, hpending⟩ := Image.exists_of_load_ok hload
    exact hpending

theorem Starts.unique (h : Starts a file start) (h' : Starts a file other) : start = other := by
  cases h with
  | intro hisa hsize hload =>
    cases h' with
    | intro hisa' hsize' hload' =>
      rw [hisa] at hisa'
      cases hisa'
      rw [hload] at hload'
      cases hload'
      rfl

section Execute

variable {job : Job} {stored : Nat} {loaded final : Hart .rv32}

theorem execute_of_ok {halt : Option Cause}
    (hrun : run Rv32.catalog job.arguments.steps (loaded.putPc job.arguments.entry) = (.ok halt, final)) :
    (job.execute stored loaded).code = 0 ∧ (job.execute stored loaded).stdout =
      unlines (registerLines final ++ [endLine job.arguments.steps halt final.trap]) := by
  obtain ⟨notices, hwith⟩ := exists_runWith (collect (isShown job.arguments.verbosity)) Rv32.catalog
    job.arguments.steps #[] (loaded.putPc job.arguments.entry)
  rw [hrun] at hwith
  simp only [Job.execute, hwith]
  exact ⟨trivial, trivial⟩

theorem execute_of_error {stop : Stop RunError}
    (hrun : run Rv32.catalog job.arguments.steps (loaded.putPc job.arguments.entry) = (.error stop, final)) :
    (job.execute stored loaded).code = 1 ∧
      (job.execute stored loaded).stdout = unlines (registerLines final) := by
  obtain ⟨notices, hwith⟩ := exists_runWith (collect (isShown job.arguments.verbosity)) Rv32.catalog
    job.arguments.steps #[] (loaded.putPc job.arguments.entry)
  rw [hrun] at hwith
  simp only [Job.execute, hwith]
  exact ⟨trivial, trivial⟩

end Execute

/-- How the command goes on from its arguments: to the run, or to a failure in front of it. -/
inductive GoesOn (a : Arguments) (file : ImageFile) : Report → Prop where
  | runs {job : Job} {stored : Nat} {loaded : Hart .rv32} (harguments : job.arguments = a)
      (hstarts : Starts a file (loaded.putPc a.entry)) : GoesOn a file (job.execute stored loaded)
  | fails {report : Report} (hnone : ∀ start, ¬Starts a file start) (hcode : report.code ≠ 0)
      (hstdout : report.stdout = "") : GoesOn a file report

/-- The image is opened, the memory laid out and the image read and loaded, in that order. -/
theorem goesOn_run {extensions : Extensions} (hisa : Isa.parse a.isa = .ok (32, extensions)) (file : ImageFile) :
    GoesOn a file (Job.run ⟨a, extensions⟩ file) := by
  cases file with
  | unopened reason => exact .fails nofun Nat.one_ne_zero rfl
  | unread reason =>
    rw [Job.run]
    dsimp only
    split
    case isTrue => exact .fails nofun Nat.one_ne_zero rfl
    case isFalse => exact .fails nofun (by decide) rfl
  | content bytes =>
    rw [Job.run]
    dsimp only
    split
    case isFalse hsize =>
      refine .fails ?_ (by decide) rfl
      rintro start ⟨-, hfits, -⟩
      exact hsize hfits
    case isTrue hsize =>
      cases hload : (Image.load a.entry bytes : Interpretation (Hart .rv32) (Image.Error Cause) Nat)
          (Hart.new .rv32 a.ramSize extensions) with
      | mk answer loaded =>
        simp only [ExceptT.run, hload]
        cases answer with
        | ok stored => exact .runs rfl (.intro hisa hsize hload)
        | error stop =>
          refine .fails ?_ Nat.one_ne_zero rfl
          rintro start ⟨hisa', -, hload'⟩
          rw [hisa] at hisa'
          cases hisa'
          rw [hload] at hload'
          cases hload'

theorem goesOn_answerWith {parse : List String → Except Report Arguments} {arguments : List String}
    (hparse : parse arguments = .ok a) (readImage : String → Id ImageFile) :
    GoesOn a (readImage a.image) (answerWith parse readImage arguments) := by
  cases hisa : Isa.parse a.isa with
  | error e =>
    simp only [answerWith, Job.planWith, hparse, hisa]
    refine .fails (fun start hstarts => ?_) Nat.one_ne_zero rfl
    obtain ⟨extensions, hnamed⟩ := hstarts.exists_isa
    cases hisa.symm.trans hnamed
  | ok named =>
    obtain ⟨xlen, extensions⟩ := named
    by_cases hxlen : xlen = 32
    · subst hxlen
      simp only [answerWith, Job.planWith, hparse, hisa, if_true]
      exact goesOn_run hisa (readImage a.image)
    · simp only [answerWith, Job.planWith, hparse, hisa, if_neg hxlen]
      refine .fails (fun start hstarts => ?_) Nat.one_ne_zero rfl
      obtain ⟨_, hnamed⟩ := hstarts.exists_isa
      cases hisa.symm.trans hnamed
      exact hxlen rfl

/-- What the command leaves behind says what has become of the run, as long as its arguments can be read. It
    succeeds exactly if the run starts and does not break off, and prints nothing if it does not start. Otherwise
    it prints the state in which the hart was left, also if the run breaks off, and behind it how the run ended
    if it does not. -/
structure Truthful (a : Arguments) (file : ImageFile) (report : Report) : Prop where
  code_eq_zero_iff : report.code = 0 ↔
    ∃ start halt final, Starts a file start ∧ run Rv32.catalog a.steps start = (.ok halt, final)
  silent : (∀ start, ¬Starts a file start) → report.stdout = ""
  brokenOff : ∀ {start stop final}, Starts a file start →
    run Rv32.catalog a.steps start = (.error stop, final) →
      ∃ shown, textLines report.stdout = shown ++ [""] ∧ ShowsState shown final
  ended : ∀ {start halt final}, Starts a file start → run Rv32.catalog a.steps start = (.ok halt, final) →
    ∃ shown last, textLines report.stdout = shown ++ [last, ""] ∧ ShowsState shown final ∧
      TellsEnd a.steps start final last

theorem Truthful.of_execute {job : Job} {stored : Nat} {loaded : Hart .rv32}
    (hstarts : Starts job.arguments file (loaded.putPc job.arguments.entry)) :
    Truthful job.arguments file (job.execute stored loaded) where
  code_eq_zero_iff := by
    cases hrun : run Rv32.catalog job.arguments.steps (loaded.putPc job.arguments.entry) with
    | mk answer final =>
      cases answer with
      | ok halt => exact iff_of_true (execute_of_ok hrun).1 ⟨_, halt, final, hstarts, hrun⟩
      | error stop =>
        refine iff_of_false ?_ ?_
        · rw [(execute_of_error hrun).1]
          exact Nat.one_ne_zero
        · rintro ⟨start, halt, final', hstarts', hrun'⟩
          obtain rfl := hstarts.unique hstarts'
          cases hrun.symm.trans hrun'
  silent hnone := absurd hstarts (hnone _)
  brokenOff := by
    intro start stop final hstarts' hrun
    obtain rfl := hstarts.unique hstarts'
    rw [(execute_of_error hrun).2, textLines_unlines (oneLine_of_mem_registerLines final)]
    exact ⟨_, rfl, showsState_registerLines final⟩
  ended := by
    intro start halt final hstarts' hrun
    obtain rfl := hstarts.unique hstarts'
    have hlines : ∀ line ∈ registerLines final ++ [endLine job.arguments.steps halt final.trap], OneLine line :=
      List.forall_mem_append.mpr
        ⟨oneLine_of_mem_registerLines final, List.forall_mem_singleton.mpr (oneLine_endLine _ _ _)⟩
    rw [(execute_of_ok hrun).2, textLines_unlines hlines, List.append_assoc]
    exact ⟨_, _, rfl, showsState_registerLines final, tellsEnd_endLine hstarts.trap_eq hrun⟩

theorem GoesOn.truthful {report : Report} (h : GoesOn a file report) : Truthful a file report := by
  cases h with
  | runs harguments hstarts =>
    subst harguments
    exact .of_execute hstarts
  | fails hnone hcode hstdout =>
    constructor
    case code_eq_zero_iff => exact iff_of_false hcode fun ⟨start, _, _, hstarts, _⟩ => hnone start hstarts
    case silent => exact fun _ => hstdout
    case brokenOff => exact fun hstarts => absurd hstarts (hnone _)
    case ended => exact fun hstarts => absurd hstarts (hnone _)

/-- What the command itself leaves behind. -/
theorem answer_truthful {arguments : List String} (hread : Arguments.read arguments = .ok a)
    (readImage : String → Id ImageFile) : Truthful a (readImage a.image) (answer readImage arguments) := by
  have hparse : Arguments.parse arguments = .ok a := by
    rw [Arguments.parse, hread]
    rfl
  exact (goesOn_answerWith hparse readImage).truthful

/-- Whatever the image and the arguments are, and in whatever way the arguments are read. -/
theorem report_is_truthful {parse : List String → Except Report Arguments} {arguments : List String}
    (hparse : parse arguments = .ok a) (readImage : String → Id ImageFile) :
    Truthful a (readImage a.image) (answerWith parse readImage arguments) :=
  (goesOn_answerWith hparse readImage).truthful

/-- `addi x1, x0, 5` and then `lw x5, 14(x0)`, which reads beyond a memory of eight bytes. With a budget of three
    steps that is reported as a halt. -/
theorem reports_load_fault :
    let arguments := ["image.txt", "--ram-size", "8", "--steps", "3"]
    let a : Arguments := ⟨"image.txt", 3, "rv32im", 0, 8, 0⟩
    let readImage : String → Id ImageFile := fun _ => .content "v2.0 raw\n500093\ne02283\n".toUTF8
    Arguments.parse arguments = .ok a ∧ (answer readImage arguments).code = 0 ∧
      ∃ shown, textLines (answer readImage arguments).stdout =
        shown ++ ["halted: LoadFault (mcause 5)", ""] := by
  intro arguments a readImage
  let file := "v2.0 raw\n500093\ne02283\n".toUTF8
  let before := Hart.new .rv32 8 ⟨true, false, false, false, false⟩
  have hparse : Arguments.parse arguments = .ok a := rfl
  have hisa : Isa.parse "rv32im" = .ok (32, ⟨true, false, false, false, false⟩) := by decide +kernel
  have hlines : Image.lines file.data.toList = "v2.0 raw".toUTF8.data.toList ::
      ["500093".toUTF8.data.toList, "e02283".toUTF8.data.toList] := by
    decide +kernel
  have hwords : Image.Expands ["500093".toUTF8.data.toList, "e02283".toUTF8.data.toList]
      [0x00500093#32, 0x00e02283#32] :=
    .cons (.word (Image.hasText_toUTF8 "500093") rfl) (.cons (.word (Image.hasText_toUTF8 "e02283") rfl) .nil)
  have himage : Image.IsImage file [0x00500093#32, 0x00e02283#32] := ⟨hlines, Image.isHeader_header, hwords⟩
  cases hload : (Image.load 0 file : Interpretation (Hart .rv32) (Image.Error Cause) Nat) before with
  | mk stored loaded =>
    have hmade := hload
    rw [Image.load_image himage] at hmade
    have hfirst := congrArg Prod.fst hmade
    have hsecond := congrArg Prod.snd hmade
    dsimp only at hfirst hsecond
    have hstored : stored = .ok 8 := by
      rw [← hfirst]
      decide +kernel
    have hhalt : (run Rv32.catalog 3 (loaded.putPc 0)).1.toOption = some (some .loadFault) := by
      rw [← hsecond]
      decide +kernel
    rw [hstored] at hload
    have hstarts : Starts a (readImage a.image) (loaded.putPc 0) := .intro hisa (by decide) hload
    cases hrun : run Rv32.catalog 3 (loaded.putPc 0) with
    | mk outcome final =>
      rw [hrun] at hhalt
      cases outcome with
      | error stop => cases hhalt
      | ok halt =>
        obtain rfl : halt = some .loadFault := Option.some.inj hhalt
        have htruthful := report_is_truthful hparse readImage
        obtain ⟨shown, last, hlines, -, htells⟩ := htruthful.ended hstarts hrun
        obtain rfl : last = s!"halted: {Cause.loadFault.display}" :=
          (htells.halted .loadFault).mpr ((halt_eq_some_iff hstarts.trap_eq hrun).mp rfl)
        exact ⟨hparse, htruthful.code_eq_zero_iff.mpr ⟨_, _, _, hstarts, hrun⟩, shown, hlines⟩

end RiscvSemantics.Command
