import RiscvSemantics.Machine.Hart
import RiscvSemantics.Proofs.Record.ChangesLast
import RiscvSemantics.Proofs.Run.Progress

namespace RiscvSemantics

variable {σ ε ω : Type} [Machine σ ε]

/-- Statements go through one after the other, and these are the entries that each of them adds. -/
inductive Statement.GoThrough (instruction : Instruction) :
    List (Statement ε) → Recorded σ ε → List (List (Access ε)) → Recorded σ ε → Prop where
  | nil (s : Recorded σ ε) : GoThrough instruction [] s [] s
  | cons {statement : Statement ε} {rest : List (Statement ε)} {s t u : Recorded σ ε}
      {entries : List (Access ε)} {more : List (List (Access ε))}
      (hfirst : statement.execute instruction s = (.ok (), t)) (hgained : s.Gained entries t)
      (hrest : GoThrough instruction rest t more u) :
      GoThrough instruction (statement :: rest) s (entries :: more) u

/-- Statements break off at one of them. Those before it go through, it only reads, and with that
    all is over: the changes that are made are those of the statements before, in order. -/
def Statement.FailsAt (instruction : Instruction) (statements : List (Statement ε))
    (before : Recorded σ ε) (k : Nat) (violation : Violation) (after : Recorded σ ε) : Prop :=
  ∃ failing mid parts reads, statements[k]? = some failing ∧
    GoThrough instruction (statements.take k) before parts mid ∧
    failing.execute instruction mid = (.error (.error violation), after) ∧
    OnlyReads reads ∧ before.Gained (parts.flatten ++ reads) after ∧
    changesAmong (parts.flatten ++ reads) = (parts.map changesAmong).flatten

/-- The entries of a fetch: the program counter, and the cells from there on. -/
def fetchEntries (pc c0 c1 c2 c3 : Bits) : List (Access ε) :=
  [.getPc pc, .getMemory (pc.advance 0) c0, .getMemory (pc.advance 1) c1, .getMemory (pc.advance 2) c2,
    .getMemory (pc.advance 3) c3]

/-- The word that four cells make up, the first of which is the lowest. -/
def wordOfCells (c0 c1 c2 c3 : Bits) : BitVec 32 :=
  c3.value.setWidth 8 ++ c2.value.setWidth 8 ++ c1.value.setWidth 8 ++ c0.value.setWidth 8

/-- A fetch comes to a program counter and a word, and reads nothing but these. -/
structure Recorded.Fetches (before : Recorded σ ε) (pc : Bits) (word : BitVec 32) (after : Recorded σ ε) :
    Prop where
  fetched : (fetch : Action (Recorded σ ε) (Bits × BitVec 32)) before = (.ok (pc, word), after)
  entries : ∃ c0 c1 c2 c3, before.Gained (fetchEntries pc c0 c1 c2 c3) after ∧ word = wordOfCells c0 c1 c2 c3

/-- How a step comes to report an error, always with what it has fetched: at once if that is no
    instruction, else where the formula breaks off. -/
inductive Catalog.StepFails (catalog : Catalog ω ε) (before : Recorded σ ε) :
    RunError → Recorded σ ε → Prop where
  | undecodable {pc : Bits} {word : BitVec 32} {after : Recorded σ ε}
      (hfetches : before.Fetches pc word after)
      (hdecode : catalog.decode word (Machine.extensions after) = none) :
      StepFails catalog before (.undecodable pc word) after
  | contract {pc : Bits} {word : BitVec 32} {fetched after : Recorded σ ε} {decoded : Decoded ω} {k : Nat}
      {violation : Violation} (hfetches : before.Fetches pc word fetched)
      (hdecode : catalog.decode word (Machine.extensions fetched) = some decoded)
      (hfails : Statement.FailsAt ⟨decoded.operands, instructionBytes⟩
        (catalog.semantics decoded.opcode).statements fetched k violation after) :
      StepFails catalog before (.contract pc violation) after

open Interpretation

namespace Statement

variable {instruction : Instruction} {statement : Statement ε} {rest : List (Statement ε)}
  {before mid after : Recorded σ ε} {violation : Violation} {k : Nat}

theorem exists_gained_of_ok (hexecute : statement.execute instruction before = (.ok (), after)) :
    ∃ entries, before.Gained entries after := by
  obtain ⟨reads, asked, -, hreads, hlast⟩ := statement.changesLast instruction before
  rw [hexecute] at hlast
  obtain ⟨change?, -, hchange⟩ := hlast
  exact ⟨_, hreads.append hchange⟩

theorem exists_reads_of_violation
    (hexecute : statement.execute instruction before = (.error (.error violation), after)) :
    ∃ reads, OnlyReads reads ∧ before.Gained reads after := by
  obtain ⟨reads, asked, honly, hreads, hlast⟩ := statement.changesLast instruction before
  rw [hexecute] at hlast
  obtain rfl : after = asked := hlast
  exact ⟨reads, honly, hreads⟩

theorem failsAt_head (hexecute : statement.execute instruction before = (.error (.error violation), after)) :
    FailsAt instruction (statement :: rest) before 0 violation after := by
  obtain ⟨reads, honly, hreads⟩ := exists_reads_of_violation hexecute
  exact ⟨statement, before, [], reads, rfl, .nil before, hexecute, honly, hreads,
    changesAmong_flatten_append [] honly⟩

theorem FailsAt.cons (hexecute : statement.execute instruction before = (.ok (), mid))
    (hfails : FailsAt instruction rest mid k violation after) :
    FailsAt instruction (statement :: rest) before (k + 1) violation after := by
  obtain ⟨entries, hentries⟩ := exists_gained_of_ok hexecute
  obtain ⟨failing, last, parts, reads, hfailing, hthrough, hviolation, honly, hgained, -⟩ := hfails
  refine ⟨failing, last, entries :: parts, reads, hfailing, .cons hexecute hentries hthrough, hviolation, honly,
    ?_, changesAmong_flatten_append _ honly⟩
  rw [List.flatten_cons, List.append_assoc]
  exact hentries.append hgained

/-- Statements that break off do so at one of them. -/
theorem exists_failsAt {statements : List (Statement ε)}
    (hexecute : executeAll instruction statements before = (.error (.error violation), after)) :
    ∃ k, FailsAt instruction statements before k violation after := by
  induction statements generalizing before with
  | nil => cases hexecute
  | cons statement rest ih =>
    rw [executeAll] at hexecute
    cases hfirst : statement.execute instruction before with
    | mk answer mid =>
      cases answer with
      | ok u =>
        rw [bind_of_ok hfirst] at hexecute
        obtain ⟨k, hfails⟩ := ih hexecute
        exact ⟨k + 1, hfails.cons hfirst⟩
      | error stop =>
        rw [bind_of_error hfirst] at hexecute
        cases hexecute
        exact ⟨0, failsAt_head hfirst⟩

end Statement

section Step

variable {before after : Recorded σ ε} {catalog : Catalog ω ε} {e : RunError} {budget : Nat}

theorem gained_of_fetchByte {pc : Bits} {offset : Nat} {byte : BitVec 8}
    (hfetch : (fetchByte pc offset : Action (Recorded σ ε) (BitVec 8)) before = (.ok byte, after)) :
    ∃ cell : Bits, before.Gained [.getMemory (pc.advance offset) cell] after ∧
      byte = cell.value.setWidth 8 := by
  rw [fetchByte] at hfetch
  obtain ⟨cell, mid, hcell, hfetch⟩ := exists_of_bind_ok hfetch
  cases hfetch
  exact ⟨cell, Recorded.gained_of_ask (q := .memory (pc.advance offset)) hcell, rfl⟩

theorem Recorded.fetches_of_ok {pc : Bits} {word : BitVec 32}
    (hfetch : (fetch : Action (Recorded σ ε) (Bits × BitVec 32)) before = (.ok (pc, word), after)) :
    before.Fetches pc word after := by
  refine ⟨hfetch, ?_⟩
  rw [fetch] at hfetch
  obtain ⟨pc', s, hpc, hfetch⟩ := exists_of_bind_ok hfetch
  obtain ⟨b0, s0, h0, hfetch⟩ := exists_of_bind_ok hfetch
  obtain ⟨b1, s1, h1, hfetch⟩ := exists_of_bind_ok hfetch
  obtain ⟨b2, s2, h2, hfetch⟩ := exists_of_bind_ok hfetch
  obtain ⟨b3, s3, h3, hfetch⟩ := exists_of_bind_ok hfetch
  cases hfetch
  have hgained := gained_of_ask (q := .pc) hpc
  obtain ⟨c0, hgained0, rfl⟩ := gained_of_fetchByte h0
  obtain ⟨c1, hgained1, rfl⟩ := gained_of_fetchByte h1
  obtain ⟨c2, hgained2, rfl⟩ := gained_of_fetchByte h2
  obtain ⟨c3, hgained3, rfl⟩ := gained_of_fetchByte h3
  exact ⟨c0, c1, c2, c3, (((hgained.append hgained0).append hgained1).append hgained2).append hgained3, rfl⟩

theorem stepFails (hstep : step catalog before = (.error (.error e), after)) :
    catalog.StepFails before e after := by
  cases hfetch : (fetch : Action (Recorded σ ε) (Bits × BitVec 32)) before with
  | mk answer fetched =>
    simp only [step, stepWith, hfetch] at hstep
    cases answer with
    | error fault => cases hstep
    | ok fetchedWord =>
      obtain ⟨pc, word⟩ := fetchedWord
      have hfetches := Recorded.fetches_of_ok hfetch
      cases hdecode : catalog.decode word (Machine.extensions fetched) with
      | none =>
        simp only [hdecode] at hstep
        cases hstep
        exact .undecodable hfetches hdecode
      | some decoded =>
        simp only [hdecode] at hstep
        cases hexecute : (catalog.semantics decoded.opcode).execute ⟨decoded.operands, instructionBytes⟩
            fetched with
        | mk answer last =>
          rw [hexecute] at hstep
          cases answer with
          | ok u => cases hstep
          | error stop =>
            cases stop with
            | fault fault => cases hstep
            | error violation =>
              cases hstep
              obtain ⟨k, hfails⟩ := Statement.exists_failsAt hexecute
              exact .contract hfetches hdecode hfails

/-- A run that reports an error has come to a step that does. -/
theorem exists_stepFails_of_run (hrun : run catalog budget before = (.error (.error e), after)) :
    ∃ k last, k < budget ∧ catalog.Passes before k last ∧ Machine.pending last = none ∧
      catalog.StepFails last e after := by
  induction budget generalizing before with
  | zero => cases hrun
  | succ budget ih =>
    cases catalog.begins before with
    | halts hpending hfirst =>
      rw [hfirst] at hrun
      cases hrun
    | goesOn hpending hstep hfirst =>
      rw [hfirst] at hrun
      obtain ⟨k, last, hlt, hpasses, hlast⟩ := ih hrun
      exact ⟨k + 1, last, Nat.succ_lt_succ hlt, .next hpending hstep hpasses, hlast⟩
    | breaksOff hpending hstep hfirst =>
      rw [hfirst] at hrun
      cases hrun
      exact ⟨0, before, Nat.succ_pos budget, .start before, hpending, stepFails hstep⟩

end Step

/-- Changes are made last, and an error leaves nothing half done. An evaluation only reads. A
    statement reads before it makes its one change. A formula that breaks off does so at one of its
    statements, which only reads, and only those before it have made changes. A step that reports
    an error does so with what it has fetched, and so does a run, whatever the formula has made of
    the program counter by then. -/
theorem changes_last (instruction : Instruction) :
    (∀ (e : Expr) (before : Recorded σ ε),
        ∃ reads, OnlyReads reads ∧ before.Gained reads (e.eval instruction before).2) ∧
      (∀ (statement : Statement ε) (before : Recorded σ ε), statement.ChangesLast instruction before) ∧
      (∀ (formula : Formula ε) (before after : Recorded σ ε) (violation : Violation),
        formula.execute instruction before = (.error (.error violation), after) →
          ∃ k, Statement.FailsAt instruction formula.statements before k violation after) ∧
      ∀ {ω : Type} (catalog : Catalog ω ε) (before after : Recorded σ ε) (e : RunError),
        (step catalog before = (.error (.error e), after) → catalog.StepFails before e after) ∧
          ∀ budget, run catalog budget before = (.error (.error e), after) →
            ∃ k last, k < budget ∧ catalog.Passes before k last ∧ Machine.pending last = none ∧
              catalog.StepFails last e after := by
  refine ⟨?_, ?_, ?_, ?_⟩
  · intro e before
    exact e.gained_reads instruction before
  · intro statement before
    exact statement.changesLast instruction before
  · intro formula before after violation hexecute
    exact Statement.exists_failsAt hexecute
  · intro ω catalog before after e
    exact ⟨stepFails, fun budget => exists_stepFails_of_run⟩

/-- A formula moves the program counter and then sets a register to a value of 16 bits. The run
    reports where the instruction was fetched, although the program counter has moved. -/
theorem fails_after_moving_pc :
    let formula : Formula Cause := ⟨[.setPc (.add .pc (.literal ⟨32, 4#32, by decide⟩)),
      .setRegister (.literal ⟨5, 1#5, by decide⟩) (.literal ⟨16, 0#16, by decide⟩)]⟩
    let operands : Operands := ⟨.U, [⟨5, 0#5, by decide⟩, ⟨20, 0#20, by decide⟩], rfl⟩
    let catalog : Catalog Unit Cause := ⟨fun _ _ => some ⟨(), operands⟩, fun _ => formula⟩
    let start : Recorded (Hart .rv32) Cause := Recorded.new (Hart.new .rv32 4 Extensions.none)
    let e := RunError.contract ⟨32, 0#32, by decide⟩ (.valueWidth .registerValue 32 16)
    let after := (run catalog 1 start).2
    (run catalog 1 start).1 = .error (.error e) ∧ after.machine.pc.toNat = 4 ∧
      ∃ k last, k < 1 ∧ catalog.Passes start k last ∧ Machine.pending last = none ∧
        catalog.StepFails last e after := by
  intro formula operands catalog start e after
  have hanswer : (run catalog 1 start).1 = .error (.error e) := by rfl
  have hrun : run catalog 1 start = (.error (.error e), after) := by
    rw [← hanswer]
    exact (Prod.eta _).symm
  obtain ⟨-, -, -, hcatalogs⟩ := changes_last (σ := Hart .rv32) ⟨operands, instructionBytes⟩
  exact ⟨hanswer, by decide +kernel, (hcatalogs catalog start after e).2 1 hrun⟩

end RiscvSemantics
