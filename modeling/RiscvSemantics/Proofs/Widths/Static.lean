import RiscvSemantics.Proofs.Widths.Course

namespace RiscvSemantics

open Dialogue Violation

variable {σ ε : Type}

/-- An operand is as wide as its frame says, or the layouts differ as it says. -/
theorem Instruction.map_width_operand (instruction : Instruction) (xlen : Nat)
    (widths : Machine.Widths) (format : Format) (field : Field) :
    (instruction.operand format field).map Bits.width =
      (instruction.frame xlen widths).operand format field := by
  have hfound : ((instruction.frame xlen widths).format.position? field).bind
      ((instruction.frame xlen widths).operands[·]?) =
        (instruction.operands.get? field).map Bits.width := by
    simp only [frame, Operands.get?, Option.map_bind]
    congr 1
    funext k
    exact List.getElem?_map
  simp only [operand, Frame.operand, hfound]
  cases instruction.operands.get? field with
  | none => rfl
  | some value =>
    by_cases hformat : instruction.operands.format = format
    · have hframe : (instruction.frame xlen widths).format = format := hformat
      simp only [Option.map_some, if_pos hformat, if_pos hframe]
      rfl
    · have hframe : (instruction.frame xlen widths).format ≠ format := hformat
      simp only [Option.map_some, if_neg hformat, if_neg hframe]
      rfl

theorem keeps_widen {frame : Frame} (a : Bits) (target : Nat) {x : Except Fault Bits}
    (hx : target ≤ 64 → a.width ≤ target → ∃ c, x = .ok c ∧ c.width = target) :
    (do
      checked (requireWidening a target)
      guarded x : Dialogue ε Violation Bits).Keeps frame Bits.width (.widen a.width target) := by
  have hcheck : requireWidening a target =
      if 64 < target then .error (widthOverflow target)
      else if target < a.width then .error (narrowingExtension a.width target)
      else .ok () := by
    unfold requireWidening requireFits
    by_cases hfits : target ≤ 64
    · rw [if_pos hfits, if_neg (Nat.not_lt.mpr hfits)]
      rfl
    · rw [if_neg hfits, if_pos (Nat.lt_of_not_le hfits)]
      rfl
  have hkeeps : (checked (requireWidening a target) : Dialogue ε Violation Unit).Keeps frame id
      (.checked (if 64 < target then .error (widthOverflow target)
        else if target < a.width then .error (narrowingExtension a.width target)
        else .ok ())) := by
    rw [hcheck]
    exact keeps_checked (congrFun Except.map_id _)
  refine hkeeps.bind fun _ hok => ?_
  simp only [Forecast.checked] at hok
  split at hok
  · cases hok
  · split at hok
    · cases hok
    · obtain ⟨c, hc, hwidth⟩ := hx (by omega) (by omega)
      exact keeps_guarded hc hwidth

/-- Evaluation goes as forecast. -/
theorem Expr.dialogue_keeps (instruction : Instruction) (xlen : Nat) (hxlen : xlen ≤ 64)
    (widths : Machine.Widths) (e : Expr) :
    (e.dialogue instruction xlen hxlen : Dialogue ε Violation Bits).Keeps
      (instruction.frame xlen widths) Bits.width (e.forecast (instruction.frame xlen widths)) := by
  induction e with
  | literal value => exact keeps_pure rfl
  | operand format field => exact keeps_checked (instruction.map_width_operand xlen widths format field)
  | pc => exact keeps_query (q := .pc) trivial
  | xlen => exact keeps_pure rfl
  | instructionBytes => exact keeps_pure rfl
  | register id ih =>
    refine ih.bind fun index _ => ?_
    refine (keeps_demand rfl).bind fun _ hok => ?_
    have hindex : index.width = registerIdBits := Forecast.of_demand_ok hok
    exact keeps_query (q := .register index) hindex
  | memory address ih =>
    refine ih.bind fun location _ => ?_
    refine (keeps_demand rfl).bind fun _ hok => ?_
    have hlocation : (Query.memory location).Fits (instruction.frame xlen widths).xlen :=
      Forecast.of_demand_ok (p := location.width = xlen) hok
    refine (keeps_query hlocation).bind fun cell _ => ?_
    exact (keeps_demand rfl).bind fun _ _ => keeps_pure rfl
  | binary op left right ihl ihr =>
    refine ihl.bind fun a _ => ?_
    refine ihr.bind fun b _ => ?_
    cases hop : op.needsEqualWidths with
    | false =>
      have hfree : false = true → a.width = b.width := fun h => absurd h Bool.false_ne_true
      obtain ⟨c, hc, hwidth⟩ := op.apply_ok (a := a) (b := b) (by rwa [hop])
      rw [Forecast.demand_eq_pure hfree, Forecast.pure_bind]
      exact keeps_guarded hc hwidth
    | true =>
      refine (keeps_demand (by simp only [requireEqualWidths, forall_const])).bind fun _ hok => ?_
      obtain ⟨c, hc, hwidth⟩ := op.apply_ok fun _ => Forecast.of_demand_ok hok rfl
      exact keeps_guarded hc hwidth
  | unary op inner ih =>
    rw [forecast, ← Forecast.bind_pure (inner.forecast _)]
    exact ih.bind fun a _ => keeps_pure (op.width_apply a)
  | zeroExtend width inner ih =>
    exact ih.bind fun a _ => keeps_widen a width Bits.zeroExtend_ok
  | signExtend width inner ih =>
    exact ih.bind fun a _ => keeps_widen a width Bits.signExtend_ok
  | extract start width source ih =>
    refine ih.bind fun a _ => ?_
    refine (keeps_demand rfl).bind fun _ hwidth => ?_
    obtain ⟨c, hc, hcwidth⟩ := a.extract_ok start (Forecast.of_demand_ok hwidth)
    exact keeps_guarded hc hcwidth
  | concat high low ihh ihl =>
    refine ihh.bind fun a _ => ?_
    refine ihl.bind fun b _ => ?_
    refine (keeps_demand rfl).bind fun _ hwidth => ?_
    obtain ⟨c, hc, hcwidth⟩ := Bits.concat_ok (Forecast.of_demand_ok hwidth)
    exact keeps_guarded hc hcwidth
  | select condition yes no ihc ihy ihn =>
    refine ihc.bind fun c _ => ?_
    refine ihy.bind fun a _ => ?_
    refine ihn.bind fun b _ => ?_
    refine (keeps_demand rfl).bind fun _ hwidth => ?_
    have heq : a.width = b.width := Forecast.of_demand_ok hwidth
    apply keeps_pure
    split
    · rfl
    · exact heq.symm

theorem Statement.dialogue_keeps (instruction : Instruction) (xlen : Nat) (hxlen : xlen ≤ 64)
    (widths : Machine.Widths) (statement : Statement ε) :
    (statement.dialogue instruction xlen hxlen).Keeps (instruction.frame xlen widths) id
      (statement.forecast (instruction.frame xlen widths)) := by
  cases statement with
  | setRegister id value =>
    simp only [dialogue, preparation, bind_assoc, pure_bind, conclude]
    refine (id.dialogue_keeps instruction xlen hxlen widths).bind fun index _ => ?_
    refine (keeps_demand rfl).bind fun _ hindex => ?_
    refine (value.dialogue_keeps instruction xlen hxlen widths).bind fun v _ => ?_
    rw [← Forecast.bind_pure (Forecast.demand _ _)]
    refine (keeps_demand rfl).bind fun _ hwidth => ?_
    exact keeps_change ⟨Forecast.of_demand_ok hindex, Forecast.of_demand_ok hwidth⟩
  | setMemory address value =>
    simp only [dialogue, preparation, bind_assoc, pure_bind, conclude]
    refine (address.dialogue_keeps instruction xlen hxlen widths).bind fun location _ => ?_
    refine (keeps_demand rfl).bind fun _ hlocation => ?_
    refine (value.dialogue_keeps instruction xlen hxlen widths).bind fun v _ => ?_
    rw [← Forecast.bind_pure (Forecast.demand _ _)]
    refine (keeps_demand rfl).bind fun _ hwidth => ?_
    exact keeps_change ⟨Forecast.of_demand_ok hlocation, Forecast.of_demand_ok hwidth⟩
  | setPc value =>
    simp only [dialogue, preparation, bind_assoc, pure_bind, conclude]
    refine (value.dialogue_keeps instruction xlen hxlen widths).bind fun v _ => ?_
    rw [← Forecast.bind_pure (Forecast.demand _ _)]
    refine (keeps_demand rfl).bind fun _ hok => ?_
    have hwidth : v.width = xlen := Forecast.of_demand_ok hok
    exact keeps_change hwidth
  | raiseIf condition cause =>
    simp only [dialogue, preparation, bind_assoc, pure_bind]
    refine (condition.dialogue_keeps instruction xlen hxlen widths).bind fun c _ => ?_
    split
    · exact keeps_change trivial
    · exact keeps_pure rfl

end RiscvSemantics
