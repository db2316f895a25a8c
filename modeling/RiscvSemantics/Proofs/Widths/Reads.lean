import RiscvSemantics.Proofs.Widths.Forecast

namespace RiscvSemantics

open Violation

namespace Expr

/-- The nodes of an expression, each behind its parts, and the parts from left to
    right. Both branches of a selection are parts of it. -/
def nodes : Expr → List Expr
  | .register id => nodes id ++ [.register id]
  | .memory address => nodes address ++ [.memory address]
  | .binary op left right => nodes left ++ (nodes right ++ [.binary op left right])
  | .unary op inner => nodes inner ++ [.unary op inner]
  | .zeroExtend width inner => nodes inner ++ [.zeroExtend width inner]
  | .signExtend width inner => nodes inner ++ [.signExtend width inner]
  | .extract start width source => nodes source ++ [.extract start width source]
  | .concat high low => nodes high ++ (nodes low ++ [.concat high low])
  | .select condition yes no =>
    nodes condition ++ (nodes yes ++ (nodes no ++ [.select condition yes no]))
  | .literal value => [.literal value]
  | .operand format field => [.operand format field]
  | .pc => [.pc]
  | .xlen => [.xlen]
  | .instructionBytes => [.instructionBytes]

/-- Whether a node breaks off, in its parts or by itself. -/
def fails (frame : Frame) (e : Expr) : Bool :=
  !(e.forecast frame).outcome.isOk

/-- The part of a list of nodes that is reached: everything up to the first node that
    breaks off, and that node. -/
def reached (frame : Frame) (nodes : List Expr) : List Expr :=
  nodes.take (nodes.findIdx (·.fails frame) + 1)

/-- The read that a node makes by itself. An index or an address of the wrong width is
    not read from. -/
def read? (frame : Frame) : Expr → Option Read
  | .pc => some .pc
  | .register id =>
    match (id.forecast frame).outcome with
    | .ok width => if width = registerIdBits then some .register else none
    | .error _ => none
  | .memory address =>
    match (address.forecast frame).outcome with
    | .ok width => if width = frame.xlen then some .cell else none
    | .error _ => none
  | _ => none

/-- The reads of an evaluation, in order. -/
def reads (frame : Frame) (e : Expr) : List Read :=
  (reached frame e.nodes).filterMap (read? frame)

variable {frame : Frame}

theorem fails_eq_false {e : Expr} {width : Nat} (hok : (e.forecast frame).outcome = .ok width) :
    e.fails frame = false := by
  rw [fails, hok]
  rfl

theorem fails_eq_true {e : Expr} {violation : Violation}
    (herror : (e.forecast frame).outcome = .error violation) : e.fails frame = true := by
  rw [fails, herror]
  rfl

theorem mem_nodes_self (e : Expr) : e ∈ e.nodes := by
  cases e <;> simp [nodes]

theorem reached_append_of_fails {nodes : List Expr} (rest : List Expr)
    (hfails : ∃ node ∈ nodes, node.fails frame = true) :
    reached frame (nodes ++ rest) = reached frame nodes := by
  have hlt : nodes.findIdx (·.fails frame) < nodes.length := List.findIdx_lt_length.mpr hfails
  rw [reached, List.findIdx_append, if_pos hlt, List.take_append_of_le_length hlt]
  rfl

theorem reached_append_of_ok {nodes : List Expr} (rest : List Expr)
    (hok : ∀ node ∈ nodes, node.fails frame = false) :
    reached frame (nodes ++ rest) = nodes ++ reached frame rest := by
  have hlength : nodes.findIdx (·.fails frame) = nodes.length := List.findIdx_eq_length.mpr hok
  rw [reached, List.findIdx_append, hlength, if_neg (Nat.lt_irrefl _), List.take_append, reached,
    List.take_of_length_le (by omega)]
  congr 2
  omega

theorem reached_of_ok {nodes : List Expr} (hok : ∀ node ∈ nodes, node.fails frame = false) :
    reached frame nodes = nodes := by
  have h := reached_append_of_ok [] hok
  simpa [reached] using h

end Expr

/-- What comes to something has a first part that comes to something, and a rest that
    goes on from it. -/
theorem Forecast.bind_ok {α β : Type} {forecast : Forecast α} {f : α → Forecast β} {b : β}
    (hok : (forecast >>= f).outcome = .ok b) :
    ∃ a, forecast.outcome = .ok a ∧ (f a).outcome = .ok b := by
  obtain ⟨reads, outcome⟩ := forecast
  cases outcome with
  | ok a => exact ⟨a, rfl, hok⟩
  | error violation => cases hok

namespace Expr

variable {frame : Frame}

theorem fails_of_mem_append_self {e : Expr} {rest : List Expr} {width : Nat}
    (hrest : ∀ node ∈ rest, node.fails frame = false) (hok : (e.forecast frame).outcome = .ok width) :
    ∀ node ∈ rest ++ [e], node.fails frame = false :=
  List.forall_mem_append.mpr ⟨hrest, List.forall_mem_singleton.mpr (fails_eq_false hok)⟩

/-- Nothing breaks off within an expression that has a width. -/
theorem fails_of_mem_nodes {e : Expr} {width : Nat} (hok : (e.forecast frame).outcome = .ok width) :
    ∀ node ∈ e.nodes, node.fails frame = false := by
  induction e generalizing width with
  | literal | operand | pc | xlen | instructionBytes =>
    exact List.forall_mem_singleton.mpr (fails_eq_false hok)
  | unary op inner ih => exact fails_of_mem_append_self (ih hok) hok
  | register part ih | memory part ih | zeroExtend _ part ih | signExtend _ part ih
  | extract _ _ part ih =>
    obtain ⟨w, hw, _⟩ := Forecast.bind_ok hok
    exact fails_of_mem_append_self (ih hw) hok
  | binary _ left right ihl ihr | concat left right ihl ihr =>
    obtain ⟨a, ha, hrest⟩ := Forecast.bind_ok hok
    obtain ⟨b, hb, _⟩ := Forecast.bind_ok hrest
    exact List.forall_mem_append.mpr ⟨ihl ha, fails_of_mem_append_self (ihr hb) hok⟩
  | select condition yes no ihc ihy ihn =>
    obtain ⟨c, hc, hbranches⟩ := Forecast.bind_ok hok
    obtain ⟨a, ha, hrest⟩ := Forecast.bind_ok hbranches
    obtain ⟨b, hb, _⟩ := Forecast.bind_ok hrest
    exact List.forall_mem_append.mpr
      ⟨ihc hc, List.forall_mem_append.mpr ⟨ihy ha, fails_of_mem_append_self (ihn hb) hok⟩⟩

/-- The reads of a part come first, and those of the rest unless the part breaks
    off. -/
theorem reads_bind {part : Expr} {f : Nat → Forecast Nat} {rest : List Expr}
    (hpart : (part.forecast frame).reads = part.reads frame)
    (hrest : ∀ width, (part.forecast frame).outcome = .ok width →
      (f width).reads = (reached frame rest).filterMap (read? frame)) :
    (part.forecast frame >>= f).reads = (reached frame (part.nodes ++ rest)).filterMap (read? frame) := by
  change (Forecast.bind _ f).reads = _
  cases houtcome : (part.forecast frame).outcome with
  | ok width =>
    have hok := fails_of_mem_nodes houtcome
    rw [reads, reached_of_ok hok] at hpart
    simp only [Forecast.bind, houtcome]
    rw [reached_append_of_ok rest hok, List.filterMap_append, hpart, hrest width houtcome]
  | error violation =>
    have hfails := fails_eq_true houtcome
    simp only [Forecast.bind, houtcome]
    rw [reached_append_of_fails rest ⟨part, part.mem_nodes_self, hfails⟩, hpart, reads]

theorem reached_singleton (e : Expr) : reached frame [e] = [e] := by
  rw [reached, List.take_of_length_le]
  exact Nat.succ_le_succ (Nat.zero_le _)

theorem reads_checked_bind_pure {x : Except Violation Unit} (width : Nat) :
    (Forecast.checked x >>= fun _ => pure width : Forecast Nat).reads = [] := by
  cases x <;> rfl

/-- A forecast reads what the nodes that are reached read by themselves. -/
theorem reads_forecast (e : Expr) : (e.forecast frame).reads = e.reads frame := by
  induction e with
  | literal | operand | pc | xlen | instructionBytes =>
    rw [reads, nodes, reached_singleton]
    rfl
  | register id ih =>
    refine reads_bind ih fun width hwidth => ?_
    simp only [reached_singleton, List.filterMap_cons, List.filterMap_nil, read?, hwidth]
    by_cases hindex : width = registerIdBits
    · rw [Forecast.demand_eq_pure hindex, if_pos hindex]
      rfl
    · rw [Forecast.demand, if_neg hindex, if_neg hindex]
      rfl
  | memory address ih =>
    refine reads_bind ih fun width hwidth => ?_
    simp only [reached_singleton, List.filterMap_cons, List.filterMap_nil, read?, hwidth]
    by_cases hlocation : width = frame.xlen
    · rw [Forecast.demand_eq_pure hlocation, if_pos hlocation]
      exact congrArg (Read.cell :: ·) (reads_checked_bind_pure _)
    · rw [Forecast.demand, if_neg hlocation, if_neg hlocation]
      rfl
  | unary op inner ih =>
    rw [forecast, ← Forecast.bind_pure (inner.forecast frame)]
    refine reads_bind ih fun a _ => ?_
    rw [reached_singleton]
    rfl
  | zeroExtend _ part ih | signExtend _ part ih | extract _ _ part ih =>
    refine reads_bind ih fun a _ => ?_
    rw [reached_singleton]
    exact reads_checked_bind_pure _
  | binary _ left right ihl ihr | concat left right ihl ihr =>
    refine reads_bind ihl fun a _ => reads_bind ihr fun b _ => ?_
    rw [reached_singleton]
    exact reads_checked_bind_pure _
  | select condition yes no ihc ihy ihn =>
    refine reads_bind ihc fun c _ => reads_bind ihy fun a _ => reads_bind ihn fun b _ => ?_
    rw [reached_singleton]
    exact reads_checked_bind_pure _

end Expr

end RiscvSemantics
