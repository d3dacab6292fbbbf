import MiniScheme.Eval.Event
import MiniScheme.Store.Printer

namespace MiniScheme

/-- Why an evaluation has no answer at all: it is nested too deeply, or a built-in has met a number
of arguments that its arity rules out. -/
inductive Halt
  | depthExceeded
  | malformedCall (callee : Builtin) (received : Nat)
  deriving DecidableEq, Repr

def Halt.message : Halt → String
  | depthExceeded => "evaluation is nested too deeply"
  | malformedCall callee received =>
    callee.name ++ " cannot run on " ++ toString received ++ " arguments"

/-- A finished evaluation. The store keeps what was done before an error. -/
structure Run (α : Type) where
  result : Except Error α
  store : Store
  log : List Event

/-- Evaluations, which use and change a store and record events. -/
def EvalM (α : Type) : Type := Verbosity → Store → Except Halt (Run α)

namespace EvalM

variable {α β γ : Type}

@[always_inline, inline] protected def pure (a : α) : EvalM α :=
  fun _ s ↦ .ok ⟨.ok a, s, []⟩

/-- After an error nothing else is evaluated. -/
@[always_inline, inline] protected def bind (m : EvalM α) (f : α → EvalM β) : EvalM β :=
  fun verbosity s ↦
    match m verbosity s with
    | .error halt => .error halt
    | .ok ⟨.error e, s, log⟩ => .ok ⟨.error e, s, log⟩
    | .ok ⟨.ok a, s, log⟩ =>
      match f a verbosity s with
      | .error halt => .error halt
      | .ok ⟨result, s, later⟩ => .ok ⟨result, s, log ++ later⟩

@[always_inline, inline] instance : Monad EvalM where
  pure := EvalM.pure
  bind := EvalM.bind

def halt (h : Halt) : EvalM α := fun _ _ ↦ .error h

def fail (e : Error) : EvalM α := fun _ s ↦ .ok ⟨.error e, s, []⟩

def ofExcept : Except Error α → EvalM α
  | .ok a => pure a
  | .error e => fail e

def inspect (f : Store → α) : EvalM α := fun _ s ↦ .ok ⟨.ok (f s), s, []⟩

def update (f : Store → α × Store) : EvalM α := fun _ s ↦
  let (a, s) := f s
  .ok ⟨.ok a, s, []⟩

/-- Records an event of the given level if it is to be shown. -/
def record (level : Level) (event : Store → Event) : EvalM Unit := fun verbosity s ↦
  .ok ⟨.ok (), s, if verbosity.shows level then [event s] else []⟩

def ending (callee : Builtin) (run : Run Value) : Event :=
  match run.result with
  | .ok v => .returned callee (run.store.text v)
  | .error e => .failed callee e

def reporting (callee : Builtin) (m : EvalM Value) : EvalM Value := fun verbosity s ↦
  match m verbosity s with
  | .error halt => .error halt
  | .ok run =>
    let later := if verbosity.shows .trace then [ending callee run] else []
    .ok { run with log := run.log ++ later }

theorem pure_apply (a : α) (verbosity : Verbosity) (s : Store) :
    (pure a : EvalM α) verbosity s = .ok ⟨.ok a, s, []⟩ := rfl

/-- A composed evaluation finishes if the first part fails, or if both parts finish. -/
theorem bind_eq_ok_iff {m : EvalM α} {f : α → EvalM β} {verbosity : Verbosity} {s : Store}
    {run : Run β} :
    (m >>= f) verbosity s = .ok run ↔
      (∃ e t log, m verbosity s = .ok ⟨.error e, t, log⟩ ∧ run = ⟨.error e, t, log⟩) ∨
      ∃ a t log later, m verbosity s = .ok ⟨.ok a, t, log⟩ ∧ f a verbosity t = .ok later ∧
        run = { later with log := log ++ later.log } := by
  change EvalM.bind m f verbosity s = .ok run ↔ _
  rw [EvalM.bind]
  rcases m verbosity s with halt | ⟨e | a, t, log⟩
  · simp
  · constructor
    · intro h
      cases h
      exact .inl ⟨e, t, log, rfl, rfl⟩
    · rintro (⟨_, _, _, h, rfl⟩ | ⟨_, _, _, _, h, _⟩)
      · cases h
        rfl
      · cases h
  · constructor
    · intro h
      dsimp only at h
      split at h
      · cases h
      · next result u later hf =>
        cases h
        exact .inr ⟨a, t, log, _, rfl, hf, rfl⟩
    · rintro (⟨_, _, _, h, _⟩ | ⟨_, _, _, _, h, hf, rfl⟩)
      · cases h
      · cases h
        dsimp only
        rw [hf]

protected theorem bind_pure_comp_id (m : EvalM α) : EvalM.bind m EvalM.pure = m := by
  funext verbosity s
  rw [EvalM.bind]
  rcases m verbosity s with _ | ⟨_ | _, _, _⟩
  · rfl
  · rfl
  · simp [EvalM.pure]

protected theorem pure_bind (a : α) (f : α → EvalM β) : EvalM.bind (EvalM.pure a) f = f a := by
  funext verbosity s
  simp only [EvalM.bind, EvalM.pure, List.nil_append]
  rcases f a verbosity s with _ | ⟨_, _, _⟩ <;> rfl

protected theorem bind_assoc (m : EvalM α) (f : α → EvalM β) (g : β → EvalM γ) :
    EvalM.bind (EvalM.bind m f) g = EvalM.bind m fun a ↦ EvalM.bind (f a) g := by
  funext verbosity s
  simp only [EvalM.bind]
  rcases m verbosity s with _ | ⟨_ | a, t, _⟩
  · rfl
  · rfl
  · dsimp only
    rcases f a verbosity t with _ | ⟨_ | b, u, _⟩
    · rfl
    · rfl
    · dsimp only
      rcases g b verbosity u with _ | ⟨_, _, _⟩
      · rfl
      · simp only [List.append_assoc]

instance : LawfulMonad EvalM :=
  .mk' _ EvalM.bind_pure_comp_id EvalM.pure_bind EvalM.bind_assoc

end EvalM

end MiniScheme
