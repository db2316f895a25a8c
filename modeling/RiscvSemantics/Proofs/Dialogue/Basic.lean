import RiscvSemantics.Proofs.Machine.Interpretation

namespace RiscvSemantics

/-- What can be asked of a machine. -/
inductive Query where
  | pc
  | register (id : Bits)
  | memory (address : Bits)

/-- What can be done to a machine that traps for causes of type `ε`. -/
inductive Change (ε : Type) where
  | pc (value : Bits)
  | register (id value : Bits)
  | memory (address value : Bits)
  | raise (cause : ε)

variable {σ ε δ α β γ : Type}

def Query.ask [Machine σ ε] : Query → Action σ Bits
  | .pc => Machine.getPc
  | .register id => Machine.getRegister id
  | .memory address => Machine.getMemory address

def Change.make [Machine σ ε] : Change ε → Action σ Unit
  | .pc value => Machine.setPc value
  | .register id value => Machine.setRegister id value
  | .memory address value => Machine.setMemory address value
  | .raise cause => Machine.raise cause

/-- An interpretation apart from any machine. It either is done, or looks at what a
    machine shows without an access, its extensions and its pending cause, or asks
    something and goes on with the answer, or makes a change. Nothing else of a machine
    can reach it. -/
inductive Dialogue (ε δ α : Type) where
  | done (answer : Except (Stop δ) α)
  | look (next : Extensions → Option ε → Dialogue ε δ α)
  | ask (query : Query) (next : Bits → Dialogue ε δ α)
  | make (change : Change ε) (next : Dialogue ε δ α)

namespace Dialogue

open Interpretation

/-- The dialogue held with a machine. -/
def run [Machine σ ε] : Dialogue ε δ α → Interpretation σ δ α
  | done answer => fun s => (answer, s)
  | look next => fun s => (next (Machine.extensions s) (Machine.pending s)).run s
  | ask query next => do
    let value ← act query.ask
    (next value).run
  | make change next => do
    act change.make
    next.run

/-- One dialogue after another, unless the first broke off. -/
def bind : Dialogue ε δ α → (α → Dialogue ε δ β) → Dialogue ε δ β
  | done (.ok a), f => f a
  | done (.error stop), _ => done (.error stop)
  | look next, f => look fun extensions pending => (next extensions pending).bind f
  | ask query next, f => ask query fun value => (next value).bind f
  | make change next, f => make change (next.bind f)

instance : Monad (Dialogue ε δ) where
  pure a := done (.ok a)
  bind := bind

def query (q : Query) : Dialogue ε δ Bits :=
  ask q pure

def change (c : Change ε) : Dialogue ε δ Unit :=
  make c (pure ())

def checked : Except δ α → Dialogue ε δ α
  | .ok a => pure a
  | .error e => done (.error (.error e))

def guarded : Except Fault α → Dialogue ε δ α
  | .ok a => pure a
  | .error fault => done (.error (.fault fault))

theorem bind_eq (d : Dialogue ε δ α) (f : α → Dialogue ε δ β) : d >>= f = d.bind f := rfl

theorem bind_pure_eq (d : Dialogue ε δ α) : d.bind pure = d := by
  induction d with
  | done answer => cases answer <;> rfl
  | look next ih => exact congrArg look (funext fun extensions => funext (ih extensions))
  | ask q next ih => exact congrArg (ask q) (funext ih)
  | make c next ih => exact congrArg (make c) ih

theorem bind_bind (d : Dialogue ε δ α) (f : α → Dialogue ε δ β) (g : β → Dialogue ε δ γ) :
    (d.bind f).bind g = d.bind fun a => (f a).bind g := by
  induction d with
  | done answer => cases answer <;> rfl
  | look next ih => exact congrArg look (funext fun extensions => funext (ih extensions))
  | ask q next ih => exact congrArg (ask q) (funext ih)
  | make c next ih => exact congrArg (make c) ih

instance : LawfulMonad (Dialogue ε δ) :=
  LawfulMonad.mk' _ bind_pure_eq (fun _ _ => rfl) bind_bind

section Run

variable [Machine σ ε]

theorem run_ask {q : Query} {value : Bits} {s s' : σ} (hask : (q.ask : Action σ Bits) s = (.ok value, s'))
    (next : Bits → Dialogue ε δ α) : (ask q next).run s = (next value).run s' :=
  bind_of_ok (act_of_ok hask) _

theorem run_make {c : Change ε} {s s' : σ} (hmake : (c.make : Action σ Unit) s = (.ok (), s'))
    (next : Dialogue ε δ α) : (make c next).run s = next.run s' :=
  bind_of_ok (act_of_ok hmake) _

theorem run_ask_fault {q : Query} {fault : Fault} {s s' : σ}
    (hask : (q.ask : Action σ Bits) s = (.error fault, s')) (next : Bits → Dialogue ε δ α) :
    (ask q next).run s = (.error (.fault fault), s') :=
  bind_of_error (act_of_error hask) _

theorem run_make_fault {c : Change ε} {fault : Fault} {s s' : σ}
    (hmake : (c.make : Action σ Unit) s = (.error fault, s')) (next : Dialogue ε δ α) :
    (make c next).run s = (.error (.fault fault), s') :=
  bind_of_error (act_of_error hmake) _

@[simp] theorem run_pure (a : α) : (pure a : Dialogue ε δ α).run = (pure a : Interpretation σ δ α) := rfl

@[simp] theorem run_checked (x : Except δ α) :
    (checked x : Dialogue ε δ α).run = (Interpretation.checked x : Interpretation σ δ α) := by
  cases x <;> rfl

@[simp] theorem run_guarded (x : Except Fault α) :
    (guarded x : Dialogue ε δ α).run = (Interpretation.guarded x : Interpretation σ δ α) := by
  cases x <;> rfl

@[simp] theorem run_query (q : Query) :
    (query q : Dialogue ε δ Bits).run = (act q.ask : Interpretation σ δ Bits) := by
  simp only [query, run, run_pure, bind_pure]

@[simp] theorem run_change (c : Change ε) :
    (change c : Dialogue ε δ Unit).run = (act c.make : Interpretation σ δ Unit) := by
  simp only [change, run, run_pure, bind_pure_unit]

/-- Holding two dialogues one after the other is one interpretation after the
    other. -/
@[simp] theorem run_bind (d : Dialogue ε δ α) (f : α → Dialogue ε δ β) :
    (d >>= f).run = (d.run >>= fun a => (f a).run : Interpretation σ δ β) := by
  rw [bind_eq]
  induction d with
  | done answer =>
    cases answer with
    | ok a => rfl
    | error stop => rfl
  | look next ih =>
    funext s
    exact congrFun (ih (Machine.extensions s) (Machine.pending s)) s
  | ask q next ih => simp only [bind, run, ih, bind_assoc]
  | make c next ih => simp only [bind, run, ih, bind_assoc]

end Run

end Dialogue

end RiscvSemantics
