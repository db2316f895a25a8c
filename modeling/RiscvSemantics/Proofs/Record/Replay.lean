import RiscvSemantics.Proofs.Dialogue.Record

namespace RiscvSemantics

variable {σ ε δ α : Type}

section Replay

variable [Machine σ ε]

/-- Reads once more; it is none unless the value read is the given one. -/
def reread (value : Bits) (action : Action σ Bits) (s : σ) : Option σ :=
  match action s with
  | (.ok answer, s') => if answer = value then some s' else none
  | (.error _, _) => none

/-- Makes a change once more; it is none if the machine faults. -/
def redo (action : Action σ Unit) (s : σ) : Option σ :=
  match action s with
  | (.ok (), s') => some s'
  | (.error _, _) => none

/-- Does to a machine what an entry of a record tells, with the index, address, value or
    cause that it tells. A read has to give the value that it tells. -/
def Access.replay : Access ε → σ → Option σ
  | .getPc value => reread value Machine.getPc
  | .setPc value => redo (Machine.setPc value)
  | .getRegister id value => reread value (Machine.getRegister id)
  | .setRegister id value => redo (Machine.setRegister id value)
  | .getMemory address value => reread value (Machine.getMemory address)
  | .setMemory address value => redo (Machine.setMemory address value)
  | .raise cause => redo (Machine.raise cause)

/-- Replays entries one after the other, from the first on. -/
def replayAll (entries : List (Access ε)) (s : σ) : Option σ :=
  entries.foldlM (fun s access => access.replay s) s

theorem reread_eq_some_iff {action : Action σ Bits} {value : Bits} {s s' : σ} :
    reread value action s = some s' ↔ action s = (.ok value, s') := by
  unfold reread
  split
  · next answer t haction =>
    rw [haction, Prod.mk.injEq, Except.ok.injEq, Option.ite_none_right_eq_some, Option.some.injEq]
  · next haction =>
    rw [haction]
    exact ⟨nofun, nofun⟩

theorem redo_eq_some_iff {action : Action σ Unit} {s s' : σ} :
    redo action s = some s' ↔ action s = (.ok (), s') := by
  unfold redo
  split
  · next haction =>
    rw [haction, Prod.mk.injEq, Option.some.injEq]
    exact ⟨fun heq => ⟨rfl, heq⟩, fun ⟨_, heq⟩ => heq⟩
  · next haction =>
    rw [haction]
    exact ⟨nofun, nofun⟩

/-- A question with its answer is replayed by asking again. -/
theorem replay_access {q : Query} {value : Bits} {s s' : σ}
    (hask : (q.ask : Action σ Bits) s = (.ok value, s')) :
    (q.access value).replay s = some s' := by
  cases q with
  | pc => exact reread_eq_some_iff.mpr hask
  | register id => exact reread_eq_some_iff.mpr hask
  | memory address => exact reread_eq_some_iff.mpr hask

theorem Change.replay_access {c : Change ε} {s s' : σ} (hmake : (c.make : Action σ Unit) s = (.ok (), s')) :
    c.access.replay s = some s' := by
  cases c with
  | pc value => exact redo_eq_some_iff.mpr hmake
  | register id value => exact redo_eq_some_iff.mpr hmake
  | memory address value => exact redo_eq_some_iff.mpr hmake
  | raise cause => exact redo_eq_some_iff.mpr hmake

end Replay

end RiscvSemantics
