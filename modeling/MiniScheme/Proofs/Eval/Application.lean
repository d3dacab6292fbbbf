import MiniScheme.Proofs.Eval.Keep
import MiniScheme.Proofs.Eval.Simulate
import MiniScheme.Proofs.Store.Opening
import Mathlib

namespace MiniScheme

/-- The same run behind what is already in the log. -/
def Run.behind {α : Type} (log : List Event) (run : Run α) : Run α :=
  { run with log := log ++ run.log }

theorem Run.map_behind_map_behind {ε α : Type} (log later : List Event) (x : Except ε (Run α)) :
    (x.map (behind later)).map (behind log) = x.map (behind (log ++ later)) := by
  rcases x with e | run
  · rfl
  · simp [Except.map, behind]

namespace EvalM

variable {α β : Type} {m : EvalM α} {f : α → EvalM β} {verbosity : Verbosity} {s t : Store}
  {log : List Event}

theorem bind_of_eq_ok {a : α} (h : m verbosity s = .ok ⟨.ok a, t, log⟩) :
    (m >>= f) verbosity s = (f a verbosity t).map (Run.behind log) := by
  change EvalM.bind m f verbosity s = _
  rw [EvalM.bind, h]
  dsimp only
  rcases f a verbosity t with halt | run <;> rfl

theorem bind_of_eq_fail {e : Error} (h : m verbosity s = .ok ⟨.error e, t, log⟩) :
    (m >>= f) verbosity s = .ok ⟨.error e, t, log⟩ := by
  change EvalM.bind m f verbosity s = _
  rw [EvalM.bind, h]

theorem bind_of_eq_halt {h : Halt} (hm : m verbosity s = .error h) :
    (m >>= f) verbosity s = .error h := by
  change EvalM.bind m f verbosity s = _
  rw [EvalM.bind, hm]

end EvalM

namespace Eval

open EvalM

/-- Evaluated from left to right, each once, the expressions have these values and lead to this
store. -/
inductive Yields (eval : Evaluator) (scope : Address) (verbosity : Verbosity) :
    Store → List Value → List Value → Store → List Event → Prop
  | nil (s : Store) : Yields eval scope verbosity s [] [] s []
  | cons {s t u : Store} {x v : Value} {xs vs : List Value} {log later : List Event}
      (h : eval x scope verbosity s = .ok ⟨.ok v, t, log⟩)
      (h' : Yields eval scope verbosity t xs vs u later) :
      Yields eval scope verbosity s (x :: xs) (v :: vs) u (log ++ later)

section Arguments

variable {eval : Evaluator} {scope : Address} {verbosity : Verbosity} {s t u : Store} {x : Value}
  {xs vs : List Value} {log later : List Event}

theorem values_cons (eval : Evaluator) (x : Value) (xs : List Value) (scope : Address) :
    values eval (x :: xs) scope = (do
      let v ← eval x scope
      let vs ← values eval xs scope
      pure (v :: vs)) := by
  rw [values, List.mapM_cons]
  rfl

theorem Yields.values_eq (h : Yields eval scope verbosity s xs vs t log) :
    values eval xs scope verbosity s = .ok ⟨.ok vs, t, log⟩ := by
  induction h with
  | nil s => rfl
  | cons hx _ ih =>
    rw [values_cons, bind_of_eq_ok hx, bind_of_eq_ok ih]
    simp [pure_apply, Except.map, Run.behind]

theorem Yields.length_eq (h : Yields eval scope verbosity s xs vs t log) :
    vs.length = xs.length := by
  induction h with
  | nil s => rfl
  | cons _ _ ih => exact congrArg (· + 1) ih

/-- The first failure ends the evaluation, with nothing behind it evaluated. -/
theorem Yields.values_fail {before after : List Value} {e : Error}
    (h : Yields eval scope verbosity s before vs t log)
    (hx : eval x scope verbosity t = .ok ⟨.error e, u, later⟩) :
    values eval (before ++ x :: after) scope verbosity s = .ok ⟨.error e, u, log ++ later⟩ := by
  induction h with
  | nil s =>
    rw [List.nil_append, values_cons, bind_of_eq_fail hx]
    rfl
  | cons hy _ ih =>
    rw [List.cons_append, values_cons, bind_of_eq_ok hy, bind_of_eq_fail (ih hx)]
    simp [Except.map, Run.behind]

theorem Yields.values_halt {before after : List Value} {halt : Halt}
    (h : Yields eval scope verbosity s before vs t log)
    (hx : eval x scope verbosity t = .error halt) :
    values eval (before ++ x :: after) scope verbosity s = .error halt := by
  induction h with
  | nil s => rw [List.nil_append, values_cons, bind_of_eq_halt hx]
  | cons hy _ ih =>
    rw [List.cons_append, values_cons, bind_of_eq_ok hy, bind_of_eq_halt (ih hx)]
    rfl

/-- Either all expressions have values, or there is a first one that has none. -/
theorem yields_or_stops (eval : Evaluator) (scope : Address) (verbosity : Verbosity) (s : Store)
    (xs : List Value) :
    (∃ vs t log, Yields eval scope verbosity s xs vs t log) ∨
      ∃ before x after vs t log, xs = before ++ x :: after ∧
        Yields eval scope verbosity s before vs t log ∧
        ((∃ e u later, eval x scope verbosity t = .ok ⟨.error e, u, later⟩) ∨
          ∃ halt, eval x scope verbosity t = .error halt) := by
  induction xs generalizing s with
  | nil => exact .inl ⟨[], s, [], .nil s⟩
  | cons x xs ih =>
    rcases hx : eval x scope verbosity s with halt | ⟨e | v, t, log⟩
    · exact .inr ⟨[], x, xs, [], s, [], rfl, .nil s, .inr ⟨halt, hx⟩⟩
    · exact .inr ⟨[], x, xs, [], s, [], rfl, .nil s, .inl ⟨e, t, log, hx⟩⟩
    · obtain ⟨vs, u, later, h⟩ | ⟨before, y, after, vs, u, later, rfl, h, hy⟩ := ih t
      · exact .inl ⟨v :: vs, u, log ++ later, .cons hx h⟩
      · exact .inr ⟨x :: before, y, after, v :: vs, u, log ++ later, rfl, .cons hx h, hy⟩

end Arguments

section Call

variable {eval : Evaluator} {scope c : Address} {verbosity : Verbosity} {s t : Store}
  {arguments : Value} {xs vs : List Value} {log : List Event}

/-- The expressions are evaluated in order and the last value is kept. -/
theorem foldlM_eq_lastValue {v : Value} (h : xs ≠ [] ∨ v = .nil) :
    xs.foldlM (fun _ x ↦ eval x scope) v = lastValue eval xs scope := by
  fun_induction lastValue eval xs scope generalizing v with
  | case1 =>
    obtain h | rfl := h
    · exact absurd rfl h
    · rfl
  | case2 x => exact bind_pure _
  | case3 x rest hne ih =>
    rw [List.foldlM_cons]
    refine congrArg (eval x scope >>= ·) (funext fun v ↦ ?_)
    exact ih (.inl hne)

theorem argumentsOf_bind_apply {f : List Value → EvalM Value}
    (hxs : s.elements? arguments = some xs) :
    (argumentsOf arguments >>= f) verbosity s = f xs verbosity s := by
  rw [argumentsOf, bind_assoc, inspect_bind_apply, hxs, pure_bind]

/-- What is recorded if everything is. -/
def traced (verbosity : Verbosity) (event : Event) : List Event :=
  if verbosity.shows .trace then [event] else []

theorem apply_builtin_eq (hxs : s.elements? arguments = some xs) (eval : Evaluator) (b : Builtin)
    (scope : Address) (verbosity : Verbosity) :
    apply eval (.builtin b) arguments scope verbosity s =
      applyBuiltin eval b xs scope verbosity s := by
  rw [apply, argumentsOf_bind_apply hxs]

/-- The run of a form with what is recorded of its call. -/
def reported (verbosity : Verbosity) (f : SpecialForm) (arguments : List String)
    (run : Run Value) : Run Value :=
  { run with log := traced verbosity (.apply f arguments) ++
      (run.log ++ traced verbosity (ending (.form f) run)) }

theorem apply_form_eq_map {f : SpecialForm} (hxs : s.elements? arguments = some xs)
    (hn : f.arity.accepts xs.length = true) (eval : Evaluator) (scope : Address)
    (verbosity : Verbosity) :
    apply eval (.builtin (.form f)) arguments scope verbosity s =
      (f.run eval xs scope verbosity s).map (reported verbosity f (xs.map s.text)) := by
  have hrecord : record .trace (fun s ↦ .apply f (xs.map s.text)) verbosity s =
      .ok ⟨.ok (), s, traced verbosity (.apply f (xs.map s.text))⟩ := rfl
  rw [apply_builtin_eq hxs, applyBuiltin, checkArity, if_pos hn, pure_bind, bind_of_eq_ok hrecord,
    reporting]
  cases f.run eval xs scope verbosity s <;> rfl

/-- The call of a form ends as the form does. -/
theorem apply_form_eq {f : SpecialForm} {run : Run Value} (hxs : s.elements? arguments = some xs)
    (hn : f.arity.accepts xs.length = true) (hr : f.run eval xs scope verbosity s = .ok run) :
    apply eval (.builtin (.form f)) arguments scope verbosity s =
      .ok { run with log := traced verbosity (.apply f (xs.map s.text)) ++
        (run.log ++ traced verbosity (ending (.form f) run)) } := by
  rw [apply_form_eq_map hxs hn, hr]
  rfl

theorem apply_closure_eq (hxs : s.elements? arguments = some xs)
    (hn : xs.length = (s.closure c).parameters.length) :
    apply eval (.closure c) arguments scope verbosity s =
      (values eval xs scope >>= callBody eval (s.closure c)) verbosity s := by
  have harity : (s.closure c).arity.accepts xs.length = true := by
    rw [Closure.arity, Arity.accepts_exactly, hn]
  rw [apply, inspect_bind_apply, argumentsOf_bind_apply hxs, applyClosure_eq, checkArity,
    if_pos harity, pure_bind]

/-- What is recorded of a call is the chain of its scopes. -/
def entering (verbosity : Verbosity) (s : Store) (inner : Address) : List Event :=
  if verbosity.shows .trace then [.enter (s.scopesText inner)] else []

/-- The body is evaluated in order in a new scope, inside the one that the closure remembers. -/
theorem exists_callBody_eq (eval : Evaluator) (verbosity : Verbosity) (s : Store)
    {closure : Closure} (hn : vs.length = closure.parameters.length) :
    ∃ inner t, s.OpensInside closure.scope closure.parameters vs inner t ∧
      callBody eval closure vs verbosity s =
        (closure.body.foldlM (fun _ x ↦ eval x inner) .nil verbosity t).map
          (Run.behind (entering verbosity t inner)) := by
  refine ⟨_, _, s.opensInside_openScope closure.scope hn, ?_⟩
  generalize ho : s.openScope closure.scope (closure.parameters.zip vs) = opened
  obtain ⟨inner, t⟩ := opened
  have hopen : update (fun s ↦ s.openScope closure.scope (closure.parameters.zip vs)) verbosity s =
      .ok ⟨.ok inner, t, []⟩ := by
    rw [update, ho]
  have henter : record .trace (fun s ↦ .enter (s.scopesText inner)) verbosity t =
      .ok ⟨.ok (), t, entering verbosity t inner⟩ := rfl
  rw [callBody, bind_of_eq_ok hopen, bind_of_eq_ok henter, Run.map_behind_map_behind,
    foldlM_eq_lastValue (.inr rfl)]
  rfl

theorem Yields.apply_closure_eq (h : Yields eval scope verbosity s xs vs t log)
    (hxs : s.elements? arguments = some xs) (hn : xs.length = (s.closure c).parameters.length) :
    apply eval (.closure c) arguments scope verbosity s =
      (callBody eval (s.closure c) vs verbosity t).map (Run.behind log) := by
  rw [Eval.apply_closure_eq hxs hn, bind_of_eq_ok h.values_eq]

end Call

/-- A call evaluates its arguments from left to right where it stands, each once. If they all have
values, it is the body in a new scope inside the one that the closure remembers; if not, it ends as
the first one does that has none. Where it stands counts for nothing else. -/
theorem apply_closure_lexical (depth : Nat) (verbosity : Verbosity) (s : Store) (c scope : Address)
    (arguments : Value) (xs : List Value) (hxs : s.elements? arguments = some xs)
    (hn : xs.length = (s.closure c).parameters.length) :
    (∀ vs t log, Yields (eval depth) scope verbosity s xs vs t log →
      ∃ inner u, t.OpensInside (s.closure c).scope (s.closure c).parameters vs inner u ∧
        apply (eval depth) (.closure c) arguments scope verbosity s =
          ((s.closure c).body.foldlM (fun _ x ↦ eval depth x inner) .nil verbosity u).map
            (Run.behind (log ++ entering verbosity u inner))) ∧
    (∀ before x after vs t log, xs = before ++ x :: after →
      Yields (eval depth) scope verbosity s before vs t log →
      (∀ e u later, eval depth x scope verbosity t = .ok ⟨.error e, u, later⟩ →
        apply (eval depth) (.closure c) arguments scope verbosity s =
          .ok ⟨.error e, u, log ++ later⟩) ∧
      ∀ halt, eval depth x scope verbosity t = .error halt →
        apply (eval depth) (.closure c) arguments scope verbosity s = .error halt) ∧
    ((∃ vs t log, Yields (eval depth) scope verbosity s xs vs t log) ∨
      ∃ before x after vs t log, xs = before ++ x :: after ∧
        Yields (eval depth) scope verbosity s before vs t log ∧
        ((∃ e u later, eval depth x scope verbosity t = .ok ⟨.error e, u, later⟩) ∨
          ∃ halt, eval depth x scope verbosity t = .error halt)) ∧
    ∀ s' c' scope' arguments' xs' vs t log log', s'.elements? arguments' = some xs' →
      s'.closure c' = s.closure c → Yields (eval depth) scope verbosity s xs vs t log →
      Yields (eval depth) scope' verbosity s' xs' vs t log' →
      ∃ outcome : Except Halt (Run Value),
        apply (eval depth) (.closure c) arguments scope verbosity s =
          outcome.map (Run.behind log) ∧
        apply (eval depth) (.closure c') arguments' scope' verbosity s' =
          outcome.map (Run.behind log') := by
  refine ⟨fun vs t log h ↦ ?_, fun before x after vs t log hsplit h ↦ ⟨fun e u later hx ↦ ?_,
    fun halt hx ↦ ?_⟩, yields_or_stops (eval depth) scope verbosity s xs, ?_⟩
  · obtain ⟨inner, u, hopen, hbody⟩ :=
      exists_callBody_eq (eval depth) verbosity t (h.length_eq.trans hn)
    refine ⟨inner, u, hopen, ?_⟩
    rw [h.apply_closure_eq hxs hn, hbody, Run.map_behind_map_behind]
  · subst hsplit
    rw [apply_closure_eq hxs hn, bind_of_eq_fail (h.values_fail hx)]
  · subst hsplit
    rw [apply_closure_eq hxs hn, bind_of_eq_halt (h.values_halt hx)]
  · intro s' c' scope' arguments' xs' vs t log log' hxs' hc h h'
    have hn' : xs'.length = (s'.closure c').parameters.length := by
      rw [← h'.length_eq, h.length_eq, hn, hc]
    refine ⟨callBody (eval depth) (s.closure c) vs verbosity t, h.apply_closure_eq hxs hn, ?_⟩
    rw [h'.apply_closure_eq hxs' hn', hc]

/-- A closure with two parameters of one name, in a store where its scope and the inner one differ
in what `z` is. The lists `(1 z)`, `(1 8)` and `(w z)` can be its arguments. -/
def callers : Store where
  pairs := #[⟨.integer 1, .pair 1⟩, ⟨.symbol "z", .nil⟩, ⟨.integer 1, .pair 3⟩, ⟨.integer 8, .nil⟩,
    ⟨.symbol "w", .pair 1⟩]
  closures := #[⟨["x", "x"], [.symbol "x", .symbol "z"], 0⟩]
  scopes := #[⟨[("z", .integer 7)], []⟩, ⟨[("z", .integer 8)], [0]⟩]

theorem apply_closure_lexical_callers :
    (∃ inner u, callers.OpensInside 0 ["x", "x"] [.integer 1, .integer 8] inner u ∧
      u.lookupHere inner "x" = some (.integer 8)) ∧
    (apply (eval 2) (.closure 0) (.pair 0) 1 .silent callers).map Run.result =
      .ok (.ok (.integer 7)) ∧
    apply (eval 2) (.closure 0) (.pair 0) 1 .silent callers =
      apply (eval 2) (.closure 0) (.pair 2) 0 .silent callers ∧
    apply (eval 2) (.closure 0) (.pair 4) 1 .silent callers =
      .ok ⟨.error (.unboundName "w"), callers, []⟩ := by
  have hlist : callers.elements? (.pair 0) = some [.integer 1, .symbol "z"] := by decide
  have hother : callers.elements? (.pair 2) = some [.integer 1, .integer 8] := by decide
  have hunbound : callers.elements? (.pair 4) = some [.symbol "w", .symbol "z"] := by decide
  have hnumber (n : Int64) (e : Address) :
      eval 2 (.integer n) e .silent callers = .ok ⟨.ok (.integer n), callers, []⟩ := rfl
  have hz : eval 2 (.symbol "z") 1 .silent callers = .ok ⟨.ok (.integer 8), callers, []⟩ := rfl
  have hinner := Yields.cons (hnumber 1 1) (.cons hz (.nil callers))
  have houter := Yields.cons (hnumber 1 0) (.cons (hnumber 8 0) (.nil callers))
  obtain ⟨hvalues, -, -, hcallers⟩ :=
    apply_closure_lexical 2 .silent callers 0 1 (.pair 0) _ hlist rfl
  obtain ⟨-, hfails, -⟩ := apply_closure_lexical 2 .silent callers 0 1 (.pair 4) _ hunbound rfl
  obtain ⟨inner, u, hopen, -⟩ := hvalues _ _ _ hinner
  obtain ⟨outcome, hleft, hright⟩ := hcallers _ _ _ _ _ _ _ _ _ hother rfl hinner houter
  refine ⟨⟨inner, u, hopen, ?_⟩, ?_, hleft.trans hright.symm, ?_⟩
  · exact hopen.lookupHere_eq (show ["x", "x"] = ["x"] ++ "x" :: [] from rfl) List.not_mem_nil
  · cbv
  · exact (hfails [] _ _ _ _ _ rfl (.nil callers)).1 _ _ _ rfl

end Eval

end MiniScheme
