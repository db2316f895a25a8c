import RiscvSemantics.Machine.Basic

namespace RiscvSemantics

namespace Interpretation

variable {σ ε α β : Type} {s s' : σ}

/-- What comes after a part that gave a value, be it of an interpretation or of an
    action. -/
theorem bind_of_ok {x : ExceptT ε (StateM σ) α} {a : α} (hx : x s = (.ok a, s'))
    (f : α → ExceptT ε (StateM σ) β) : (x >>= f) s = f a s' := by
  change (ExceptT.bindCont f (x s).1) (x s).2 = _
  rw [hx]
  rfl

/-- Nothing comes after a part that broke off. -/
theorem bind_of_error {x : ExceptT ε (StateM σ) α} {e : ε} (hx : x s = (.error e, s'))
    (f : α → ExceptT ε (StateM σ) β) : (x >>= f) s = (.error e, s') := by
  change (ExceptT.bindCont f (x s).1) (x s).2 = _
  rw [hx]
  rfl

/-- What gave a value in the end has gone through its first part. -/
theorem exists_of_bind_ok {x : ExceptT ε (StateM σ) α} {f : α → ExceptT ε (StateM σ) β} {b : β}
    {s'' : σ} (hbind : (x >>= f) s = (.ok b, s'')) : ∃ a s', x s = (.ok a, s') ∧ f a s' = (.ok b, s'') := by
  cases hx : x s with
  | mk answer s' =>
    cases answer with
    | error e =>
      rw [bind_of_error hx] at hbind
      cases hbind
    | ok a =>
      rw [bind_of_ok hx] at hbind
      exact ⟨a, s', rfl, hbind⟩

/-- What gave a value in the end has passed its first check, which leaves all as it is. -/
theorem exists_of_checked_bind_ok {x : Except ε α} {f : α → Interpretation σ ε β} {b : β}
    (hbind : (checked x >>= f) s = (.ok b, s')) : ∃ a, x = .ok a ∧ f a s = (.ok b, s') := by
  cases x with
  | ok a => exact ⟨a, rfl, hbind⟩
  | error e => cases congrArg Prod.fst hbind

/-- Two checks, of which the second depends on the first, are one check. -/
theorem checked_bind (x : Except ε α) (f : α → Except ε β) :
    (checked (x >>= f) : Interpretation σ ε β) = checked x >>= fun a => checked (f a) := by
  cases x with
  | ok a => rfl
  | error e => rfl

theorem act_apply (action : Action σ α) (s : σ) :
    (act action : Interpretation σ ε α) s = ((action s).1.mapError Stop.fault, (action s).2) := rfl

theorem act_of_ok {action : Action σ α} {a : α} (haction : action s = (.ok a, s')) :
    (act action : Interpretation σ ε α) s = (.ok a, s') := by
  change ((action s).1.mapError Stop.fault, (action s).2) = _
  rw [haction]
  rfl

theorem act_of_error {action : Action σ α} {fault : Fault} (haction : action s = (.error fault, s')) :
    (act action : Interpretation σ ε α) s = (.error (.fault fault), s') := by
  rw [act_apply, haction]
  rfl

theorem ok_of_act_ok {action : Action σ α} {a : α}
    (hact : (act action : Interpretation σ ε α) s = (.ok a, s')) : action s = (.ok a, s') := by
  cases haction : action s with
  | mk answer t =>
    cases answer with
    | ok b =>
      rw [act_of_ok haction] at hact
      cases hact
      rfl
    | error fault =>
      rw [act_of_error haction] at hact
      cases hact

/-- Actions that follow each other are parts that do. -/
theorem act_bind (action : Action σ α) (f : α → Action σ β) :
    (act (action >>= f) : Interpretation σ ε β) = act action >>= fun a => act (f a) := by
  funext s
  cases haction : action s with
  | mk answer s' =>
    cases answer with
    | ok a => rw [act_apply, bind_of_ok haction, bind_of_ok (act_of_ok haction), act_apply]
    | error fault =>
      rw [act_apply, bind_of_error haction, bind_of_error (act_of_error haction)]
      rfl

end Interpretation

end RiscvSemantics
