import RiscvSemantics.Proofs.Dialogue.Confined

namespace RiscvSemantics

variable {σ ε δ α : Type}

/-- The access changes the machine; the others only read. -/
def Access.isChange (access : Access ε) : Bool :=
  access.read?.isNone

def OnlyReads (entries : List (Access ε)) : Prop :=
  ∀ access ∈ entries, access.isChange = false

/-- The entries that are changes, in their order. -/
def changesAmong (entries : List (Access ε)) : List (Access ε) :=
  entries.filter Access.isChange

/-- The record of a machine has gained entries from one state to another. -/
def Recorded.Gained (before : Recorded σ ε) (entries : List (Access ε)) (after : Recorded σ ε) : Prop :=
  after.record.toList = before.record.toList ++ entries

section Entries

variable {entries : List (Access ε)}

theorem changesAmong_of_onlyReads (hreads : OnlyReads entries) : changesAmong entries = [] := by
  apply List.filter_eq_nil_iff.mpr
  intro access hmem
  rw [hreads access hmem]
  decide

/-- Parts are followed by reads: the changes are those of the parts. -/
theorem changesAmong_flatten_append (parts : List (List (Access ε))) (hreads : OnlyReads entries) :
    changesAmong (parts.flatten ++ entries) = (parts.map changesAmong).flatten := by
  have hsplit : changesAmong (parts.flatten ++ entries) = changesAmong parts.flatten ++ changesAmong entries :=
    List.filter_append ..
  rw [hsplit, changesAmong_of_onlyReads hreads, List.append_nil]
  exact List.filter_flatten

end Entries

namespace Recorded

variable {before mid after : Recorded σ ε} {early late : List (Access ε)}

theorem gained_nil (recorded : Recorded σ ε) : recorded.Gained [] recorded :=
  (List.append_nil _).symm

theorem Gained.append (hearly : before.Gained early mid) (hlate : mid.Gained late after) :
    before.Gained (early ++ late) after := by
  rw [Gained] at hearly hlate ⊢
  rw [hlate, hearly, List.append_assoc]

variable [Machine σ ε]

/-- A question that is answered leaves its entry. -/
theorem gained_of_ask {q : Query} {value : Bits}
    (hask : (q.ask : Action (Recorded σ ε) Bits) before = (.ok value, after)) :
    before.Gained [q.access value] after := by
  obtain ⟨machine, record⟩ := before
  cases hanswer : (q.ask : Action σ Bits) machine with
  | mk answer machine' =>
    cases answer with
    | ok v =>
      rw [ask_eq hanswer record] at hask
      cases hask
      exact Array.toList_push ..
    | error fault =>
      rw [ask_fault hanswer record] at hask
      cases hask

/-- A change leaves its entry, also if the machine faults. -/
theorem gained_of_make {c : Change ε} {answer : Except Fault Unit}
    (hmake : (c.make : Action (Recorded σ ε) Unit) before = (answer, after)) :
    before.Gained [c.access] after := by
  obtain ⟨machine, record⟩ := before
  cases hanswer : (c.make : Action σ Unit) machine with
  | mk answer' machine' =>
    rw [make_eq hanswer record] at hmake
    cases hmake
    exact Array.toList_push ..

end Recorded

section Reads

variable [Machine σ ε]

open Dialogue

/-- A dialogue that makes no changes leaves reads in a record. -/
theorem Dialogue.Confined.gained_reads {reads : Read → Prop} {result : α → Prop} {d : Dialogue ε δ α}
    (hd : d.Confined reads (fun _ => False) result) (before : Recorded σ ε) :
    ∃ entries, OnlyReads entries ∧ before.Gained entries (d.run before).2 := by
  refine ⟨d.calls before.machine, ?_, ?_⟩
  · intro access hmem
    obtain ⟨q, value, -, rfl⟩ | ⟨c, hnone, -⟩ := hd.of_mem_calls hmem
    · rw [Access.isChange, Query.read?_access, Option.isNone_some]
    · exact hnone.elim
  · rw [Recorded.Gained, d.run_recorded before.machine before.record, Array.toList_append]

theorem Expr.gained_reads (instruction : Instruction) (e : Expr) (before : Recorded σ ε) :
    ∃ entries, OnlyReads entries ∧ before.Gained entries (e.eval instruction before).2 := by
  have hconfined : (e.dialogue instruction (Machine.xlen (Recorded σ ε)) Machine.xlen_le :
      Dialogue ε Violation Bits).Confined (fun _ => True) (fun _ => False) fun _ => True :=
    e.dialogue_confined instruction _ _ fun _ _ => trivial
  rw [e.eval_eq_run]
  exact hconfined.gained_reads before

end Reads

end RiscvSemantics
