import RiscvSemantics.Proofs.Hart.Access
import RiscvSemantics.Proofs.Record.Transparent
import RiscvSemantics.Proofs.Run.Progress
import RiscvSemantics.Rv32.Semantics

namespace RiscvSemantics

variable {δ ω α : Type} {x : Xlen} {catalog : Catalog ω Cause} {budget k : Nat} {cause : Cause}

/-- The first cause that an access makes pending on a hart with so many bytes of memory; none
    if there is no such access. -/
def firstCause (size : Nat) (accesses : List (Access Cause)) : Option Cause :=
  accesses.findSome? (·.cause? size)

theorem firstCause_cons (size : Nat) (access : Access Cause) (rest : List (Access Cause)) :
    firstCause size (access :: rest) = (access.cause? size).or (firstCause size rest) := by
  rw [firstCause, List.findSome?_cons]
  cases access.cause? size <;> rfl

theorem firstCause_append (size : Nat) (early late : List (Access Cause)) :
    firstCause size (early ++ late) = (firstCause size early).or (firstCause size late) :=
  List.findSome?_append

/-- What is pending on a hart once a dialogue has been held with it: what was pending, or else
    the first cause among its accesses. No access changes the size of the memory. -/
theorem Dialogue.trap_run (d : Dialogue Cause δ α) (hart : Hart x) :
    (d.run hart).2.trap = hart.trap.or (firstCause hart.ram.size (d.calls hart)) ∧
      (d.run hart).2.ram.size = hart.ram.size := by
  induction d generalizing hart with
  | done answer => exact ⟨Option.or_none.symm, rfl⟩
  | look next ih => exact ih _ _ hart
  | ask q next ih =>
    cases hask : (q.ask : Action (Hart x) Bits) hart with
    | mk answer after =>
      cases answer with
      | ok value =>
        obtain ⟨_, _, rfl⟩ := Hart.answers_of_ask hask
        obtain ⟨htrap, hsize⟩ := ih value _
        rw [run_ask hask]
        simp only [calls, hask, firstCause_cons, ← Option.or_assoc]
        exact ⟨htrap, hsize⟩
      | error fault =>
        obtain rfl := Hart.ask_fault hask
        rw [run_ask_fault hask]
        simp only [calls, hask]
        exact ⟨Option.or_none.symm, trivial⟩
  | make c next ih =>
    cases hmake : (c.make : Action (Hart x) Unit) hart with
    | mk answer after =>
      cases answer with
      | ok u =>
        have hchanges := Hart.changes_of_make hmake
        obtain ⟨htrap, hsize⟩ := ih after
        rw [hchanges.trap, hchanges.size, Option.or_assoc] at htrap
        rw [run_make hmake]
        simp only [calls, hmake, firstCause_cons]
        exact ⟨htrap, hsize.trans hchanges.size⟩
      | error fault =>
        obtain ⟨rfl, hcause⟩ := Hart.make_fault hmake
        rw [run_make_fault hmake]
        simp only [calls, hmake, firstCause_cons, hcause]
        exact ⟨Option.or_none.symm, trivial⟩

namespace Hart

variable {before mid last after : Recorded (Hart x) Cause} {early late entries : List (Access Cause)}

/-- A recorded hart has gained entries, and with them the first cause among them, unless one was
    pending. -/
structure Gains (before : Recorded (Hart x) Cause) (entries : List (Access Cause))
    (after : Recorded (Hart x) Cause) : Prop where
  record : after.record.toList = before.record.toList ++ entries
  trap : after.machine.trap = before.machine.trap.or (firstCause before.machine.ram.size entries)
  size : after.machine.ram.size = before.machine.ram.size

theorem Gains.nil (recorded : Recorded (Hart x) Cause) : Gains recorded [] recorded :=
  ⟨(List.append_nil _).symm, Option.or_none.symm, rfl⟩

theorem Gains.append (hearly : Gains before early mid) (hlate : Gains mid late after) :
    Gains before (early ++ late) after where
  record := by rw [hlate.record, hearly.record, List.append_assoc]
  trap := by rw [hlate.trap, hearly.trap, hearly.size, firstCause_append, Option.or_assoc]
  size := hlate.size.trans hearly.size

theorem Gains.trap_of_none (hgains : Gains before entries after) (hnone : before.machine.trap = none) :
    after.machine.trap = firstCause before.machine.ram.size entries := by
  rw [hgains.trap, hnone, Option.none_or]

theorem gains_run (d : Dialogue Cause δ α) (before : Recorded (Hart x) Cause) :
    Gains before (d.calls before.machine) (d.run before).2 := by
  rw [d.run_recorded]
  exact ⟨Array.toList_append, (d.trap_run before.machine).1, (d.trap_run before.machine).2⟩

theorem gains_step (catalog : Catalog ω Cause) (before : Recorded (Hart x) Cause) :
    ∃ entries, Gains before entries (step catalog before).2 := by
  rw [step_eq_run]
  exact ⟨_, gains_run _ before⟩

/-- The step of a run in which its first cause comes up. So many steps go before it and have no
    cause among their entries, and the run is over with it. If the run has no step left, it does
    not get to see the cause, which stays pending. -/
structure StopsAt (catalog : Catalog ω Cause) (budget : Nat) (start : Recorded (Hart x) Cause)
    (entries : List (Access Cause)) (cause : Cause) (k : Nat) (before : Recorded (Hart x) Cause) : Prop where
  passes : catalog.Passes start k before
  within : k < budget
  pending : before.machine.trap = none
  entries : ∃ early late, entries = early ++ late ∧ Gains start early before ∧
    firstCause start.machine.ram.size early = none ∧
    Gains before late (step catalog before).2 ∧
    firstCause start.machine.ram.size late = some cause
  outcome : run catalog budget start =
    match step catalog before with
    | (.ok (), after) => (.ok (if k + 1 < budget then some cause else none), after)
    | (.error stop, after) => (.error stop, after)

/-- A run stops at the first step if a cause comes up there. -/
theorem stopsAt_first (budget : Nat) (hnone : before.machine.trap = none)
    (hgains : Gains before entries (step catalog before).2)
    (hcause : firstCause before.machine.ram.size entries = some cause) :
    StopsAt catalog (budget + 1) before entries cause 0 before where
  passes := .start before
  within := Nat.succ_pos budget
  pending := hnone
  entries := ⟨[], entries, rfl, .nil before, rfl, hgains, hcause⟩
  outcome := by
    have htrap := hgains.trap_of_none hnone
    rw [hcause] at htrap
    cases hstep : step catalog before with
    | mk answer after =>
      rw [hstep] at htrap
      cases answer with
      | error stop => exact run_of_stop hnone hstep
      | ok u =>
        rw [run_of_step hnone hstep]
        cases budget with
        | zero => rfl
        | succ budget => exact run_of_pending htrap

/-- A run that comes through its first step stops where the rest of it does. -/
theorem StopsAt.next (hnone : before.machine.trap = none) (hstep : step catalog before = (.ok (), mid))
    (hgains : Gains before early mid) (hearly : firstCause before.machine.ram.size early = none)
    (hstops : StopsAt catalog budget mid late cause k last) :
    StopsAt catalog (budget + 1) before (early ++ late) cause (k + 1) last where
  passes := .next hnone hstep hstops.passes
  within := Nat.succ_lt_succ hstops.within
  pending := hstops.pending
  entries := by
    obtain ⟨quiet, rest, rfl, hquiet, hnothing, hrest, hcause⟩ := hstops.entries
    rw [hgains.size] at hnothing hcause
    refine ⟨early ++ quiet, rest, (List.append_assoc ..).symm, hgains.append hquiet, ?_, hrest, hcause⟩
    rw [firstCause_append, hearly, hnothing, Option.none_or]
  outcome := by
    rw [run_of_step hnone hstep, hstops.outcome]
    simp only [Nat.add_lt_add_iff_right]

/-- The run leaves the hart as the step leaves it. -/
theorem StopsAt.machine_eq (hstops : StopsAt catalog budget before entries cause k last) :
    (run catalog budget before).2 = (step catalog last).2 := by
  rw [hstops.outcome]
  cases step catalog last with
  | mk answer after => cases answer <;> rfl

theorem gains_of_run (catalog : Catalog ω Cause) (budget : Nat) (before : Recorded (Hart x) Cause)
    (hnone : before.machine.trap = none) :
    ∃ entries, Gains before entries (run catalog budget before).2 ∧
      ∀ cause, firstCause before.machine.ram.size entries = some cause →
        ∃ k last, StopsAt catalog budget before entries cause k last := by
  induction budget generalizing before with
  | zero => exact ⟨[], .nil before, fun cause hcause => by cases hcause⟩
  | succ budget ih =>
    obtain ⟨early, hearly⟩ := gains_step catalog before
    cases hfirst : firstCause before.machine.ram.size early with
    | some first =>
      have hstops := stopsAt_first budget hnone hearly hfirst
      refine ⟨early, ?_, fun cause hcause => ⟨0, before, ?_⟩⟩
      · rwa [hstops.machine_eq]
      · obtain rfl : first = cause := Option.some.inj (hfirst.symm.trans hcause)
        exact hstops
    | none =>
      cases hstep : step catalog before with
      | mk answer mid =>
        rw [hstep] at hearly
        cases answer with
        | error stop =>
          rw [run_of_stop hnone hstep]
          refine ⟨early, hearly, fun cause hcause => ?_⟩
          rw [hfirst] at hcause
          cases hcause
        | ok u =>
          obtain ⟨late, hlate, hstops⟩ := ih mid ((hearly.trap_of_none hnone).trans hfirst)
          rw [run_of_step hnone hstep]
          refine ⟨early ++ late, hearly.append hlate, fun cause hcause => ?_⟩
          rw [firstCause_append, hfirst, Option.none_or, ← hearly.size] at hcause
          obtain ⟨k, last, hstops⟩ := hstops cause hcause
          exact ⟨k + 1, last, hstops.next hnone hstep hearly hfirst⟩

/-- The pending cause is the first one that came up. Take any hart on which nothing is pending,
    with whatever record. After any dialogue, which is any sequence of accesses that may depend
    on what is read, the cause of the first new entry that has one is pending, and nothing if
    there is none. So it is after a run, which stops right after the step in which the cause
    came up. -/
theorem trap_is_first_cause (hart : Hart x) (hnone : hart.trap = none) (record : Array (Access Cause)) :
    (∀ {δ α : Type} (d : Dialogue Cause δ α), ∃ entries,
      (d.run (Recorded.mk hart record)).2.record.toList = record.toList ++ entries ∧
        (d.run (Recorded.mk hart record)).2.machine.trap = firstCause hart.ram.size entries) ∧
      ∀ {ω : Type} (catalog : Catalog ω Cause) (budget : Nat), ∃ entries,
        (run catalog budget (Recorded.mk hart record)).2.record.toList = record.toList ++ entries ∧
          (run catalog budget (Recorded.mk hart record)).2.machine.trap = firstCause hart.ram.size entries ∧
          ∀ cause, firstCause hart.ram.size entries = some cause →
            ∃ k last, StopsAt catalog budget (Recorded.mk hart record) entries cause k last := by
  refine ⟨fun d => ?_, fun catalog budget => ?_⟩
  · have hgains := gains_run d ⟨hart, record⟩
    exact ⟨_, hgains.record, hgains.trap_of_none hnone⟩
  · obtain ⟨entries, hgains, hstops⟩ := gains_of_run catalog budget ⟨hart, record⟩ hnone
    exact ⟨entries, hgains.record, hgains.trap_of_none hnone, hstops⟩

/-- `addi x1, x0, 5` and then `lw x5, 14(x0)`, which reads beyond a memory of eight bytes. A run of
    three steps stops after the second; one of two steps ends there and does not report the
    fault. -/
theorem run_stops_after_load_fault :
    let program : ByteArray := ⟨#[0x93, 0x00, 0x50, 0x00, 0x83, 0x22, 0xe0, 0x00]⟩
    let start : Recorded (Hart .rv32) Cause :=
      Recorded.new ⟨Vector.replicate 32 0#32, program, Extensions.none, none⟩
    (run Rv32.catalog 3 start).1.toOption = some (some .loadFault) ∧
      (run Rv32.catalog 2 start).1.toOption = some none ∧
      ∃ entries k last, StopsAt Rv32.catalog 2 start entries .loadFault k last := by
  intro program start
  refine ⟨by decide +kernel, by decide +kernel, ?_⟩
  have hpending : (run Rv32.catalog 2 start).2.machine.trap = some .loadFault := by decide +kernel
  obtain ⟨-, hrun⟩ := trap_is_first_cause start.machine rfl start.record
  obtain ⟨entries, -, htrap, hstops⟩ := hrun Rv32.catalog 2
  exact ⟨entries, hstops .loadFault (htrap.symm.trans hpending)⟩

end Hart

end RiscvSemantics
