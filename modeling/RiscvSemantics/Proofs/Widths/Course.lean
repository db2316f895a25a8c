import RiscvSemantics.Proofs.Dialogue.Evaluation
import RiscvSemantics.Proofs.Widths.Forecast

namespace RiscvSemantics

open Violation

variable {σ ε α β γ δ : Type}

namespace Dialogue

/-- The dialogue goes as forecast with every machine that answers at the widths of
    the frame. The view of a result is the part of it that the forecast is about. -/
def Keeps (frame : Frame) (view : α → β) : Dialogue ε Violation α → Forecast β → Prop
  | done answer, forecast =>
    forecast.reads = [] ∧ answer.map view = forecast.outcome.mapError Stop.error
  | look next, forecast => ∀ extensions pending, (next extensions pending).Keeps frame view forecast
  | ask q next, forecast =>
    q.Fits frame.xlen ∧ ∃ later, forecast.reads = q.read :: later ∧
      ∀ value : Bits, value.width = frame.widths.of q.read →
        (next value).Keeps frame view ⟨later, forecast.outcome⟩
  | make c next, forecast => c.Fits frame.xlen ∧ next.Keeps frame view forecast

variable {frame : Frame}

theorem keeps_pure {view : α → β} {a : α} {b : β} (hview : view a = b) :
    (pure a : Dialogue ε Violation α).Keeps frame view (pure b) :=
  ⟨rfl, congrArg Except.ok hview⟩

theorem keeps_checked {view : α → β} {x : Except Violation α} {y : Except Violation β}
    (hview : x.map view = y) :
    (checked x : Dialogue ε Violation α).Keeps frame view (.checked y) := by
  subst hview
  cases x with
  | ok a => exact ⟨rfl, rfl⟩
  | error violation => exact ⟨rfl, rfl⟩

theorem keeps_demand {x : Except Violation Unit} {p : Prop} [Decidable p] {violation : Violation}
    (hx : x = if p then .ok () else .error violation) :
    (checked x : Dialogue ε Violation Unit).Keeps frame id (.demand p violation) := by
  apply keeps_checked
  subst hx
  split
  · rfl
  · rfl

theorem keeps_guarded {view : α → β} {x : Except Fault α} {a : α} {b : β} (hx : x = .ok a)
    (hview : view a = b) : (guarded x : Dialogue ε Violation α).Keeps frame view (pure b) := by
  subst hx
  exact keeps_pure hview

theorem keeps_query {q : Query} (hfits : q.Fits frame.xlen) :
    (query q : Dialogue ε Violation Bits).Keeps frame Bits.width
      (.read q.read (frame.widths.of q.read)) :=
  ⟨hfits, [], rfl, fun _ hwidth => keeps_pure hwidth⟩

theorem keeps_change {c : Change ε} (hfits : c.Fits frame.xlen) :
    (change c : Dialogue ε Violation Unit).Keeps frame id (pure ()) :=
  ⟨hfits, keeps_pure rfl⟩

/-- Dialogues go on as forecasts do. What the first one comes to may be used for the
    second. -/
theorem Keeps.bind {d : Dialogue ε Violation α} {view : α → β} {forecast : Forecast β}
    {f : α → Dialogue ε Violation δ} {view' : δ → γ} {g : β → Forecast γ}
    (hd : d.Keeps frame view forecast)
    (hf : ∀ a, forecast.outcome = .ok (view a) → (f a).Keeps frame view' (g (view a))) :
    (d >>= f).Keeps frame view' (forecast >>= g) := by
  obtain ⟨reads, outcome⟩ := forecast
  change (d.bind f).Keeps frame view' (Forecast.bind ⟨reads, outcome⟩ g)
  induction d generalizing reads with
  | done answer =>
    obtain ⟨hreads, hanswer⟩ := hd
    change reads = [] at hreads
    subst hreads
    cases answer with
    | ok a =>
      cases outcome with
      | ok b =>
        obtain rfl : view a = b := Except.ok.inj hanswer
        exact hf a rfl
      | error violation => cases hanswer
    | error stop =>
      cases outcome with
      | ok b => cases hanswer
      | error violation =>
        obtain rfl : stop = .error violation := Except.error.inj hanswer
        exact ⟨rfl, rfl⟩
  | look next ih => exact fun extensions pending => ih extensions pending reads (hd extensions pending) hf
  | ask q next ih =>
    obtain ⟨hfits, later, hreads, hnext⟩ := hd
    change reads = q.read :: later at hreads
    subst hreads
    refine ⟨hfits, ?_⟩
    cases outcome with
    | ok b => exact ⟨_, rfl, fun value hwidth => ih value later (hnext value hwidth) hf⟩
    | error violation => exact ⟨_, rfl, fun value hwidth => ih value later (hnext value hwidth) hf⟩
  | make c next ih => exact ⟨hd.1, ih reads hd.2 hf⟩

end Dialogue

end RiscvSemantics
