import MiniScheme.Proofs.Eval.Tame
import MiniScheme.Proofs.Store.Precede
import MiniScheme.Eval.Basic

namespace MiniScheme

theorem EvalM.bind_eq_error_iff {α β : Type} {m : EvalM α} {f : α → EvalM β}
    {verbosity : Verbosity} {s : Store} {h : Halt} :
    (m >>= f) verbosity s = .error h ↔
      m verbosity s = .error h ∨
      ∃ a t log, m verbosity s = .ok ⟨.ok a, t, log⟩ ∧ f a verbosity t = .error h := by
  change EvalM.bind m f verbosity s = .error h ↔ _
  rw [EvalM.bind]
  rcases m verbosity s with halt | ⟨e | a, t, log⟩
  · simp
  · simp
  · constructor
    · intro hb
      dsimp only at hb
      split at hb
      · next hf =>
        cases hb
        exact .inr ⟨a, t, log, rfl, hf⟩
      · cases hb
    · intro h
      rcases h with hm | ⟨_, _, _, hm, hf⟩
      · cases hm
      · cases hm
        dsimp only
        rw [hf]

/-- A property of stores that the evaluator keeps, whatever program it runs, as long as it starts
in a visible scope with a known expression. An evaluation knows what it is given, what it makes, and
what it finds in the slots and bindings of things it knows. -/
structure Discipline where
  Holds : Store → Prop
  Visible : Store → Address → Prop
  Known : Store → Value → Prop
  Ready : Store → Closure → Prop
  Allowed : Error → Prop
  visible_mono {s t : Store} {e : Address} : s.Precedes t → Visible s e → Visible t e
  known_mono {s t : Store} {v : Value} : s.Precedes t → Known s v → Known t v
  ready_mono {s t : Store} {c : Closure} : s.Precedes t → Ready s c → Ready t c
  known_nil (s : Store) : Known s .nil
  known_integer (s : Store) (n : Int64) : Known s (.integer n)
  known_boolean (s : Store) (b : Bool) : Known s (.boolean b)
  known_first {s : Store} {p : Address} : Holds s → Known s (.pair p) → Known s (s.first p)
  known_second {s : Store} {p : Address} : Holds s → Known s (.pair p) → Known s (s.second p)
  known_ready {s : Store} {c : Address} :
    Holds s → Known s (.closure c) → Ready s (s.closure c)
  ready_body {s : Store} {c : Closure} {v : Value} :
    Holds s → Ready s c → v ∈ c.body → Known s v
  known_lookup {s : Store} {e : Address} {name : String} {v : Value} :
    Holds s → Visible s e → s.lookup e name = some v → Known s v
  cons {s : Store} {v w : Value} :
    Holds s → Known s v → Known s w → Holds (s.cons v w).2 ∧ Known (s.cons v w).2 (s.cons v w).1
  setFirst {s : Store} {p : Address} {v : Value} :
    Holds s → Known s (.pair p) → Known s v → Holds (s.setFirst p v)
  setSecond {s : Store} {p : Address} {v : Value} :
    Holds s → Known s (.pair p) → Known s v → Holds (s.setSecond p v)
  newClosure {s : Store} {c : Closure} :
    Holds s → (∀ name ∈ c.parameters, Known s (.symbol name)) → (∀ v ∈ c.body, Known s v) →
      Visible s c.scope → Holds (s.newClosure c).2 ∧ Known (s.newClosure c).2 (s.newClosure c).1
  openScope {s : Store} {c : Closure} {vs : List Value} :
    Holds s → Ready s c → (∀ v ∈ vs, Known s v) →
      Holds (s.openScope c.scope (c.parameters.zip vs)).2 ∧
        Visible (s.openScope c.scope (c.parameters.zip vs)).2
          (s.openScope c.scope (c.parameters.zip vs)).1
  define {s : Store} {e : Address} {name : String} {v : Value} :
    Holds s → Visible s e → Known s (.symbol name) → Known s v → Holds (s.define e name v).2
  assign {s t : Store} {e : Address} {name : String} {v : Value} :
    Holds s → Visible s e → Known s v → s.assign e name v = some t → Holds t
  unbound {s : Store} {e : Address} {name : String} :
    Holds s → Visible s e → Known s (.symbol name) → s.lookup e name = none →
      Allowed (.unboundName name)
  shown {s : Store} {v : Value} :
    Holds s → Known s v →
      Allowed (.notCallable (s.text v)) ∧ Allowed (.procedureNotEvaluable (s.text v))
  unread {text : String} {e : ReadError} : Datum.ofText text = .error e → Allowed (.reading e)
  plain {e : Error} : e.Plain → Allowed e

namespace Discipline

open EvalM

variable {D : Discipline} {α β : Type} {s t : Store} {v w : Value} {vs : List Value}

/-- A finished evaluation has kept the discipline, whether it has a result or has failed. -/
structure Ends (D : Discipline) (s : Store) (Q : Store → α → Prop) (run : Run α) : Prop where
  precedes : s.Precedes run.store
  holds : D.Holds run.store
  result (a : α) : run.result = .ok a → Q run.store a
  error (e : Error) : run.result = .error e → D.Allowed e

/-- An evaluation keeps the discipline. It has no answer only where it is nested too deeply. -/
def Runs (D : Discipline) (s : Store) (m : EvalM α) (Q : Store → α → Prop) : Prop :=
  ∀ verbosity, (∀ h, m verbosity s = .error h → h = .depthExceeded) ∧
    ∀ run, m verbosity s = .ok run → D.Ends s Q run

def Evaluates (D : Discipline) (eval : Evaluator) : Prop :=
  ∀ {s : Store} {x : Value} {e : Address}, D.Holds s → D.Known s x → D.Visible s e →
    D.Runs s (eval x e) D.Known

def AllKnown (D : Discipline) (s : Store) (vs : List Value) : Prop := ∀ v ∈ vs, D.Known s v

theorem AllKnown.mono (h : D.AllKnown s vs) (hs : s.Precedes t) : D.AllKnown t vs :=
  fun v hv ↦ D.known_mono hs (h v hv)

theorem allKnown_nil (s : Store) : D.AllKnown s [] := by simp [AllKnown]

theorem allKnown_cons : D.AllKnown s (v :: vs) ↔ D.Known s v ∧ D.AllKnown s vs :=
  List.forall_mem_cons

section Rules

variable {m : EvalM α} {f : α → EvalM β} {P Q : Store → α → Prop} {R : Store → β → Prop}

theorem runs_of_eq_ok {a : α} (log : Verbosity → List Event) (hs : s.Precedes t) (hd : D.Holds t)
    (hq : Q t a) (h : ∀ verbosity, m verbosity s = .ok ⟨.ok a, t, log verbosity⟩) :
    D.Runs s m Q := by
  intro verbosity
  constructor
  · intro _ he
    rw [h] at he
    cases he
  · intro run hr
    rw [h] at hr
    cases hr
    exact ⟨hs, hd, fun b hb ↦ by cases hb; exact hq, fun e he ↦ by cases he⟩

theorem runs_pure {a : α} (hd : D.Holds s) (hq : Q s a) : D.Runs s (pure a) Q :=
  runs_of_eq_ok _ (.refl s) hd hq fun _ ↦ rfl

theorem runs_inspect {f : Store → α} (hd : D.Holds s) (hq : Q s (f s)) :
    D.Runs s (inspect f) Q :=
  runs_of_eq_ok _ (.refl s) hd hq fun _ ↦ rfl

theorem runs_update {f : Store → α × Store} (hs : s.Precedes (f s).2) (hd : D.Holds (f s).2)
    (hq : Q (f s).2 (f s).1) : D.Runs s (update f) Q :=
  runs_of_eq_ok _ hs hd hq fun _ ↦ rfl

theorem runs_record {level : Level} {event : Store → Event} {Q : Store → Unit → Prop}
    (hd : D.Holds s) (hq : Q s ()) : D.Runs s (record level event) Q :=
  runs_of_eq_ok _ (.refl s) hd hq fun _ ↦ rfl

theorem runs_of_eq_error {e : Error} (hd : D.Holds s) (he : D.Allowed e)
    (h : ∀ verbosity, m verbosity s = .ok ⟨.error e, s, []⟩) : D.Runs s m Q := by
  intro verbosity
  constructor
  · intro _ hh
    rw [h] at hh
    cases hh
  · intro run hr
    rw [h] at hr
    cases hr
    exact ⟨.refl s, hd, fun a ha ↦ (by cases ha), fun e' he' ↦ by cases he'; exact he⟩

theorem runs_fail {e : Error} (hd : D.Holds s) (he : D.Allowed e) :
    D.Runs s (fail e : EvalM α) Q :=
  runs_of_eq_error hd he fun _ ↦ rfl

theorem runs_ofExcept {x : Except Error α} (hd : D.Holds s) (hq : ∀ a, x = .ok a → Q s a)
    (he : ∀ e, x = .error e → D.Allowed e) : D.Runs s (ofExcept x) Q := by
  cases x with
  | ok a => exact runs_pure hd (hq a rfl)
  | error e => exact runs_fail hd (he e rfl)

theorem runs_depthExceeded (s : Store) : D.Runs s (halt .depthExceeded : EvalM α) Q :=
  fun _ ↦ ⟨fun _ h ↦ (by cases h; rfl), fun _ hr ↦ by cases hr⟩

theorem Runs.bind (h : D.Runs s m P)
    (hf : ∀ t a, s.Precedes t → D.Holds t → P t a → D.Runs t (f a) R) :
    D.Runs s (m >>= f) R := by
  intro verbosity
  constructor
  · intro halted he
    rcases bind_eq_error_iff.1 he with hm | ⟨a, t, log, hm, hfa⟩
    · exact (h verbosity).1 halted hm
    · have he := (h verbosity).2 _ hm
      exact (hf t a he.precedes he.holds (he.result a rfl) verbosity).1 halted hfa
  · intro run hr
    rcases bind_eq_ok_iff.1 hr with ⟨e, t, log, hm, rfl⟩ | ⟨a, t, log, later, hm, hfa, rfl⟩
    · have he := (h verbosity).2 _ hm
      refine ⟨he.precedes, he.holds, fun b hb ↦ (by cases hb), fun e' h' ↦ ?_⟩
      cases h'
      exact he.error e rfl
    · have he := (h verbosity).2 _ hm
      have hl := (hf t a he.precedes he.holds (he.result a rfl) verbosity).2 later hfa
      exact ⟨he.precedes.trans hl.precedes, hl.holds, hl.result, hl.error⟩

theorem runs_inspect_bind {g : Store → α} (hd : D.Holds s) (hf : D.Runs s (f (g s)) R) :
    D.Runs s (inspect g >>= f) R := by
  have hi : D.Runs s (inspect g) fun t a ↦ t = s ∧ a = g s := runs_inspect hd ⟨rfl, rfl⟩
  refine hi.bind ?_
  intro t a _ _ h
  obtain ⟨rfl, rfl⟩ := h
  exact hf

theorem runs_record_bind {level : Level} {event : Store → Event} {f : Unit → EvalM β}
    (hd : D.Holds s) (hf : D.Runs s (f ()) R) : D.Runs s (record level event >>= f) R := by
  have hi : D.Runs s (record level event) fun t _ ↦ t = s := runs_record hd rfl
  refine hi.bind ?_
  intro t _ _ _ h
  subst h
  exact hf

theorem runs_ofExcept_bind {x : Except Error α} (hd : D.Holds s)
    (he : ∀ e, x = .error e → D.Allowed e) (hf : ∀ a, x = .ok a → D.Runs s (f a) R) :
    D.Runs s (ofExcept x >>= f) R := by
  cases x with
  | ok a =>
    have hp : (ofExcept (.ok a) >>= f) = f a := pure_bind a f
    rw [hp]
    exact hf a rfl
  | error e =>
    have hr : D.Runs s (fail e : EvalM α) fun _ _ ↦ False := runs_fail hd (he e rfl)
    exact hr.bind fun _ _ _ _ h ↦ h.elim

theorem Runs.reporting {b : Builtin} {m : EvalM Value} {Q : Store → Value → Prop}
    (h : D.Runs s m Q) : D.Runs s (reporting b m) Q := by
  intro verbosity
  constructor
  · intro halted he
    rw [EvalM.reporting] at he
    split at he
    · next hm => exact (h verbosity).1 halted (hm.trans he)
    · cases he
  · intro run hr
    rw [EvalM.reporting] at hr
    split at hr
    · cases hr
    · next run' hm =>
      cases hr
      have he := (h verbosity).2 run' hm
      exact ⟨he.precedes, he.holds, he.result, he.error⟩

end Rules

end Discipline

end MiniScheme
