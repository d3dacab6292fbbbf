import MiniScheme.Proofs.Eval.Application

namespace MiniScheme

namespace EvalM

variable {α β : Type} {m m' : EvalM α} {f f' : α → EvalM β} {verbosity : Verbosity} {s : Store}

/-- What an evaluation comes to and the store it leaves, whatever it records on the way. -/
def outcome (m : EvalM α) (verbosity : Verbosity) (s : Store) :
    Except Halt (Except Error α × Store) :=
  (m verbosity s).map fun run ↦ (run.result, run.store)

theorem outcome_bind (m : EvalM α) (f : α → EvalM β) (verbosity : Verbosity) (s : Store) :
    (m >>= f).outcome verbosity s =
      match m.outcome verbosity s with
      | .error halt => .error halt
      | .ok (.error e, t) => .ok (.error e, t)
      | .ok (.ok a, t) => (f a).outcome verbosity t := by
  rcases hm : m verbosity s with halt | ⟨e | a, t, log⟩
  · simp only [outcome, bind_of_eq_halt hm, hm, Except.map]
  · simp only [outcome, bind_of_eq_fail hm, hm, Except.map]
  · simp only [outcome, bind_of_eq_ok hm, hm, Except.map]
    cases f a verbosity t <;> rfl

theorem outcome_bind_congr (h : m.outcome verbosity s = m'.outcome verbosity s)
    (hf : ∀ a t, (f a).outcome verbosity t = (f' a).outcome verbosity t) :
    (m >>= f).outcome verbosity s = (m' >>= f').outcome verbosity s := by
  simp only [outcome_bind, h, hf]

theorem outcome_record_bind (level : Level) (event : Store → Event) (m : EvalM α)
    (verbosity : Verbosity) (s : Store) :
    (record level event >>= fun _ ↦ m).outcome verbosity s = m.outcome verbosity s :=
  outcome_bind _ _ verbosity s

theorem outcome_reporting (callee : Builtin) (m : EvalM Value) (verbosity : Verbosity)
    (s : Store) : (reporting callee m).outcome verbosity s = m.outcome verbosity s := by
  rw [outcome, outcome, reporting]
  cases m verbosity s <;> rfl

end EvalM

open EvalM

/-- A list that is cut in two is gone through in two parts, the second one only if the first one has
not decided. -/
theorem SpecialForm.firstDeciding_append {decides : Value → Bool} {last : Value}
    (h : decides last = false) (eval : Evaluator) (scope : Address) (xs ys : List Value) :
    firstDeciding eval decides scope last (xs ++ ys) = (do
      let v ← firstDeciding eval decides scope last xs
      if decides v then pure v else firstDeciding eval decides scope v ys) := by
  induction xs generalizing last with
  | nil => simp [firstDeciding, h]
  | cons x rest ih =>
    rw [List.cons_append, firstDeciding, firstDeciding, bind_assoc]
    refine congrArg (eval x scope >>= ·) (funext fun v ↦ ?_)
    cases hv : decides v with
    | true => simp [hv]
    | false => exact ih hv

/-- The forms that evaluate their arguments up to the first value that decides, with the test for
such values and what they come to without arguments. -/
inductive Connective : SpecialForm → (Value → Bool) → Bool → Prop
  | conjunction : Connective .conjunction Value.isFalse true
  | disjunction : Connective .disjunction Value.isTrue false

namespace Connective

variable {f : SpecialForm} {decides : Value → Bool} {neutral : Bool}

theorem run_eq (hf : Connective f decides neutral) (eval : Evaluator) (xs : List Value)
    (scope : Address) :
    f.run eval xs scope =
      SpecialForm.firstDeciding eval decides scope (.boolean neutral) xs := by
  cases hf <;> rfl

theorem decides_neutral (hf : Connective f decides neutral) :
    decides (.boolean neutral) = false := by
  cases hf <;> rfl

theorem accepts (hf : Connective f decides neutral) (n : Nat) : f.arity.accepts n = true := by
  cases hf <;> exact decide_eq_true n.zero_le

theorem run_append (hf : Connective f decides neutral) (eval : Evaluator)
    (scope : Address) (front : List Value) {back : List Value} (hback : back ≠ []) :
    f.run eval (front ++ back) scope = (do
      let v ← f.run eval front scope
      if decides v then pure v else f.run eval back scope) := by
  obtain ⟨x, rest, rfl⟩ := List.exists_cons_of_ne_nil hback
  simp only [hf.run_eq]
  -- Where there are arguments, what came before them does not matter.
  exact SpecialForm.firstDeciding_append hf.decides_neutral eval scope front (x :: rest)

theorem run_singleton (hf : Connective f decides neutral) (eval : Evaluator)
    (scope : Address) (x : Value) : f.run eval [x] scope = eval x scope := by
  simp [hf.run_eq, SpecialForm.firstDeciding]

end Connective

namespace Eval

section Evaluation

variable {eval : Evaluator} {decides : Value → Bool} {scope : Address} {verbosity : Verbosity}
  {s t : Store} {x : Value} {xs vs before after : List Value} {log : List Event}
  {f : SpecialForm} {neutral : Bool} {arguments : Value}

/-- The expression `x` is the first one that has no value or one that decides, or else the last
one. Those before it are evaluated from left to right, each once. -/
structure StopsAt (eval : Evaluator) (decides : Value → Bool) (scope : Address)
    (verbosity : Verbosity) (s : Store) (xs before : List Value) (x : Value) (after : List Value)
    (t : Store) (log : List Event) : Prop where
  split : xs = before ++ x :: after
  undecided : ∃ vs, Yields eval scope verbosity s before vs t log ∧ ∀ v ∈ vs, decides v = false
  stops : after ≠ [] → ∀ v u later, eval x scope verbosity t = .ok ⟨.ok v, u, later⟩ →
    decides v = true

theorem exists_stopsAt (eval : Evaluator) (decides : Value → Bool) (scope : Address)
    (verbosity : Verbosity) (s : Store) (hxs : xs ≠ []) :
    ∃ before x after t log, StopsAt eval decides scope verbosity s xs before x after t log := by
  induction xs generalizing s with
  | nil => exact absurd rfl hxs
  | cons x rest ih =>
    by_cases hstops : rest ≠ [] → ∀ v u later,
        eval x scope verbosity s = .ok ⟨.ok v, u, later⟩ → decides v = true
    · exact ⟨[], x, rest, s, [], rfl, ⟨[], .nil s, fun _ h ↦ nomatch h⟩, hstops⟩
    · push Not at hstops
      obtain ⟨hrest, v, u, later, hx, hv⟩ := hstops
      obtain ⟨before, y, after, t, log, h⟩ := ih u hrest
      obtain ⟨vs, hvs, hall⟩ := h.undecided
      refine ⟨x :: before, y, after, t, later ++ log, congrArg (x :: ·) h.split,
        ⟨v :: vs, .cons hx hvs, ?_⟩, h.stops⟩
      exact List.forall_mem_cons.2 ⟨Bool.eq_false_of_not_eq_true hv, hall⟩

/-- Expressions whose values do not decide are passed by. -/
theorem Yields.firstDeciding_eq (h : Yields eval scope verbosity s before vs t log)
    (hvs : ∀ v ∈ vs, decides v = false) (last x : Value) (after : List Value) :
    SpecialForm.firstDeciding eval decides scope last (before ++ x :: after) verbosity s =
      (SpecialForm.firstDeciding eval decides scope last (x :: after) verbosity t).map
        (Run.behind log) := by
  induction h generalizing last with
  | nil s =>
    rw [List.nil_append]
    cases SpecialForm.firstDeciding eval decides scope last (x :: after) verbosity s <;> rfl
  | cons hy _ ih =>
    obtain ⟨hv, hvs⟩ := List.forall_mem_cons.1 hvs
    rw [List.cons_append, SpecialForm.firstDeciding, bind_of_eq_ok hy, if_neg (by simp [hv]),
      ih hvs, Run.map_behind_map_behind]
    rfl

theorem StopsAt.firstDeciding_eq
    (h : StopsAt eval decides scope verbosity s xs before x after t log) (last : Value) :
    SpecialForm.firstDeciding eval decides scope last xs verbosity s =
      (eval x scope verbosity t).map (Run.behind log) := by
  obtain ⟨vs, hvs, hall⟩ := h.undecided
  rw [h.split, hvs.firstDeciding_eq hall, SpecialForm.firstDeciding]
  congr 1
  rcases hx : eval x scope verbosity t with halt | ⟨e | v, u, later⟩
  · exact bind_of_eq_halt hx
  · exact bind_of_eq_fail hx
  · have hlast : (if decides v then pure v
        else SpecialForm.firstDeciding eval decides scope v after) = (pure v : EvalM Value) := by
      by_cases hafter : after = []
      · rw [hafter, SpecialForm.firstDeciding, ite_self]
      · rw [if_pos (h.stops hafter v u later hx)]
    rw [bind_of_eq_ok hx, hlast]
    simp [pure_apply, Except.map, Run.behind]

theorem outcome_applyBuiltin_form (hn : f.arity.accepts xs.length = true) (eval : Evaluator)
    (scope : Address) (verbosity : Verbosity) (s : Store) :
    (applyBuiltin eval (.form f) xs scope).outcome verbosity s =
      (f.run eval xs scope).outcome verbosity s := by
  rw [applyBuiltin, checkArity, if_pos hn, pure_bind, outcome_record_bind, outcome_reporting]

theorem outcome_apply_form (hxs : s.elements? arguments = some xs)
    (hn : f.arity.accepts xs.length = true) (eval : Evaluator) (scope : Address)
    (verbosity : Verbosity) :
    (apply eval (.builtin (.form f)) arguments scope).outcome verbosity s =
      (f.run eval xs scope).outcome verbosity s := by
  rw [← outcome_applyBuiltin_form hn, outcome, outcome, apply_builtin_eq hxs]

theorem outcome_run_append (hf : Connective f decides neutral) {m : EvalM Value}
    {front back : List Value}
    (hm : (f.run eval front scope).outcome verbosity s = m.outcome verbosity s)
    (hback : back ≠ []) :
    (f.run eval (front ++ back) scope).outcome verbosity s =
      (do
        let v ← m
        if decides v then pure v
        else applyBuiltin eval (.form f) back scope : EvalM Value).outcome verbosity s := by
  rw [hf.run_append eval scope front hback]
  refine outcome_bind_congr hm fun v t ↦ ?_
  cases decides v with
  | true => rfl
  | false => exact (outcome_applyBuiltin_form (hf.accepts _) eval scope verbosity t).symm

end Evaluation

/-- A connective evaluates its arguments where it stands, from left to right and each once, up to
the first one that has no value or one that decides, and ends as the last one evaluated does, with
its very value; without arguments it is the neutral truth value. So it is its first argument and
then, if that has not decided, the same connective for the others, and likewise for any two parts
of its arguments. The arguments are those from before the first evaluation, whatever becomes of the
list that holds them. -/
theorem apply_connective_stops (eval : Evaluator) (verbosity : Verbosity) (s : Store)
    (f : SpecialForm) (decides : Value → Bool) (neutral : Bool)
    (hf : Connective f decides neutral) (arguments : Value) (xs : List Value)
    (hxs : s.elements? arguments = some xs) (scope : Address) :
    (xs = [] → apply eval (.builtin (.form f)) arguments scope verbosity s =
      .ok (reported verbosity f [] ⟨.ok (.boolean neutral), s, []⟩)) ∧
    (xs ≠ [] → ∃ before x after t log,
      StopsAt eval decides scope verbosity s xs before x after t log) ∧
    (∀ before x after t log, StopsAt eval decides scope verbosity s xs before x after t log →
      apply eval (.builtin (.form f)) arguments scope verbosity s =
        (eval x scope verbosity t).map fun run ↦
          reported verbosity f (xs.map s.text) (run.behind log)) ∧
    (∀ x rest, xs = x :: rest → rest ≠ [] →
      (apply eval (.builtin (.form f)) arguments scope).outcome verbosity s =
        (do
          let v ← eval x scope
          if decides v then pure v
          else applyBuiltin eval (.form f) rest scope : EvalM Value).outcome verbosity s) ∧
    ∀ front back, xs = front ++ back → front ≠ [] → back ≠ [] →
      (apply eval (.builtin (.form f)) arguments scope).outcome verbosity s =
        (do
          let v ← applyBuiltin eval (.form f) front scope
          if decides v then pure v
          else applyBuiltin eval (.form f) back scope : EvalM Value).outcome verbosity s := by
  refine ⟨?_, exists_stopsAt eval decides scope verbosity s, ?_, ?_, ?_⟩
  · rintro rfl
    rw [apply_form_eq_map hxs (hf.accepts _), hf.run_eq]
    rfl
  · intro before x after t log h
    rw [apply_form_eq_map hxs (hf.accepts _), hf.run_eq, h.firstDeciding_eq]
    cases eval x scope verbosity t <;> rfl
  · rintro x rest rfl hrest
    rw [outcome_apply_form hxs (hf.accepts _)]
    have hfirst : (f.run eval [x] scope).outcome verbosity s =
        (eval x scope).outcome verbosity s := by
      rw [hf.run_singleton]
    exact outcome_run_append hf hfirst hrest
  · rintro front back rfl - hback
    rw [outcome_apply_form hxs (hf.accepts _)]
    have hfront := outcome_applyBuiltin_form (hf.accepts front.length) eval scope verbosity s
    exact outcome_run_append hf hfront.symm hback

/-- The list `((set-cdr! l 0) 7 w)` is bound to `l`, and `w` to nothing. Its first element cuts it
off behind itself. -/
def cutOff : Store where
  pairs := #[⟨.pair 3, .pair 1⟩, ⟨.integer 7, .pair 2⟩, ⟨.symbol "w", .nil⟩,
    ⟨.symbol "set-cdr!", .pair 4⟩, ⟨.symbol "l", .pair 5⟩, ⟨.integer 0, .nil⟩]
  closures := #[]
  scopes := #[⟨[("l", .pair 0), ("set-cdr!", .builtin (.procedure .setCdr))], []⟩]

/-- Both connectives evaluate the elements that the list had at first, the conjunction all of them
and the disjunction only one. -/
theorem apply_connective_stops_cutOff :
    apply (eval 3) (.builtin (.form .conjunction)) (.pair 0) 0 .silent cutOff =
      .ok ⟨.error (.unboundName "w"), cutOff.setSecond 0 (.integer 0), []⟩ ∧
    apply (eval 3) (.builtin (.form .disjunction)) (.pair 0) 0 .silent cutOff =
      .ok ⟨.ok .nil, cutOff.setSecond 0 (.integer 0), []⟩ ∧
    apply (eval 3) (.builtin (.form .disjunction)) .nil 0 .silent cutOff =
      .ok ⟨.ok (.boolean false), cutOff, []⟩ ∧
    (apply (eval 3) (.builtin (.form .conjunction)) (.pair 0) 0).outcome .silent cutOff =
      (do
        let v ← eval 3 (.pair 3) 0
        if v.isFalse then pure v
        else applyBuiltin (eval 3) (.form .conjunction) [.integer 7, .symbol "w"] 0 :
          EvalM Value).outcome .silent cutOff := by
  have hlist : cutOff.elements? (.pair 0) = some [.pair 3, .integer 7, .symbol "w"] := by decide
  have hfirst : eval 3 (.pair 3) 0 .silent cutOff =
      .ok ⟨.ok .nil, cutOff.setSecond 0 (.integer 0), []⟩ := rfl
  have hsecond : eval 3 (.integer 7) 0 .silent (cutOff.setSecond 0 (.integer 0)) =
      .ok ⟨.ok (.integer 7), cutOff.setSecond 0 (.integer 0), []⟩ := rfl
  have hthird : eval 3 (.symbol "w") 0 .silent (cutOff.setSecond 0 (.integer 0)) =
      .ok ⟨.error (.unboundName "w"), cutOff.setSecond 0 (.integer 0), []⟩ := rfl
  have hpassed := Yields.cons hfirst (.cons hsecond (.nil _))
  obtain ⟨-, -, hand, hrest, -⟩ :=
    apply_connective_stops (eval 3) .silent cutOff _ _ _ .conjunction (.pair 0) _ hlist 0
  obtain ⟨-, -, hor, -, -⟩ :=
    apply_connective_stops (eval 3) .silent cutOff _ _ _ .disjunction (.pair 0) _ hlist 0
  obtain ⟨hnone, -⟩ :=
    apply_connective_stops (eval 3) .silent cutOff _ _ _ .disjunction .nil [] rfl 0
  refine ⟨?_, ?_, hnone rfl, hrest _ _ rfl (List.cons_ne_nil _ _)⟩
  · rw [hand [.pair 3, .integer 7] (.symbol "w") [] _ _
      ⟨rfl, ⟨_, hpassed, by decide⟩, fun h ↦ absurd rfl h⟩, hthird]
    rfl
  · rw [hor [] (.pair 3) [.integer 7, .symbol "w"] cutOff []
      ⟨rfl, ⟨[], .nil cutOff, by decide⟩, fun _ v u later hv ↦ ?_⟩, hfirst]
    · rfl
    · cases hfirst.symm.trans hv
      rfl

end Eval

end MiniScheme
