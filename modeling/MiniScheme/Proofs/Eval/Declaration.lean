import MiniScheme.Proofs.Eval.Fault
import MiniScheme.Proofs.Store.Shared

namespace MiniScheme

open Store EvalM Eval

namespace EvalM

variable {α β : Type} {m : EvalM α} {f : α → EvalM β} {verbosity : Verbosity} {s t u : Store}
  {a : α} {e : Error} {result : Except Error β}

/-- An evaluation has this end, whatever it records on the way. -/
def EndsIn (m : EvalM α) (verbosity : Verbosity) (s : Store) (result : Except Error α)
    (t : Store) : Prop :=
  ∃ log, m verbosity s = .ok ⟨result, t, log⟩

theorem EndsIn.bind (h : m.EndsIn verbosity s (.ok a) t)
    (hf : (f a).EndsIn verbosity t result u) : (m >>= f).EndsIn verbosity s result u := by
  obtain ⟨log, hm⟩ := h
  obtain ⟨later, hf⟩ := hf
  refine ⟨log ++ later, ?_⟩
  rw [bind_of_eq_ok hm, hf]
  rfl

theorem EndsIn.bind_error (h : m.EndsIn verbosity s (.error e) t) :
    (m >>= f).EndsIn verbosity s (.error e) t := by
  obtain ⟨log, hm⟩ := h
  exact ⟨log, bind_of_eq_fail hm⟩

/-- What follows an evaluation follows every other one that has its ends. -/
theorem EndsIn.bind_of_forall {m' : EvalM α}
    (h : ∀ r u, m.EndsIn verbosity s r u → m'.EndsIn verbosity s r u)
    (hm : (m >>= f).EndsIn verbosity s result t) : (m' >>= f).EndsIn verbosity s result t := by
  obtain ⟨log, hm⟩ := hm
  obtain ⟨e, u, first, hfail, heq⟩ | ⟨a, u, first, run, hok, hf, heq⟩ := bind_eq_ok_iff.1 hm
  · cases heq
    exact (h _ _ ⟨_, hfail⟩).bind_error
  · cases heq
    exact (h _ _ ⟨_, hok⟩).bind ⟨_, hf⟩

theorem endsIn_pure (a : α) (verbosity : Verbosity) (s : Store) :
    (pure a : EvalM α).EndsIn verbosity s (.ok a) s :=
  ⟨_, rfl⟩

theorem endsIn_record (level : Level) (event : Store → Event) (verbosity : Verbosity) (s : Store) :
    (record level event).EndsIn verbosity s (.ok ()) s :=
  ⟨_, rfl⟩

theorem endsIn_inspect (look : Store → α) (verbosity : Verbosity) (s : Store) :
    (inspect look).EndsIn verbosity s (.ok (look s)) s :=
  ⟨_, rfl⟩

theorem endsIn_update (change : Store → α × Store) (verbosity : Verbosity) (s : Store) :
    (update change).EndsIn verbosity s (.ok (change s).1) (change s).2 :=
  ⟨_, rfl⟩

end EvalM

/-- The arguments `((name parameter ...) body ...)`. -/
def Store.IsDeclaration (s : Store) (arguments : Value) (name : String)
    (parameters body : List Value) : Prop :=
  ∃ target, s.elements? arguments = some (target :: body) ∧
    s.elements? target = some (.symbol name :: parameters)

/-- The arguments `(name (lambda (parameter ...) body ...))`. -/
def Store.IsLambdaDefinition (s : Store) (arguments : Value) (name : String)
    (parameters body : List Value) : Prop :=
  ∃ expression list, s.elements? arguments = some [.symbol name, expression] ∧
    s.elements? expression = some (.symbol SpecialForm.lambda.name :: list :: body) ∧
    s.elements? list = some parameters

namespace Eval

variable {s t : Store} {arguments expression list : Value} {name : String} {names : List String}
  {parameters body xs : List Value} {env : Address} {verbosity : Verbosity} {depth : Nat}
  {eval : Evaluator} {f : SpecialForm} {result : Except Error Value}

theorem accepts_cons_of_ne_nil (hb : body ≠ []) (v : Value) :
    (Arity.atLeast 2).accepts (v :: body).length = true :=
  decide_eq_true (Nat.succ_le_succ (List.length_pos_iff.2 hb))

theorem endsIn_apply_form (hxs : s.elements? arguments = some xs)
    (hn : f.arity.accepts xs.length = true)
    (hr : (f.run eval xs env).EndsIn verbosity s result t) :
    (apply eval (.builtin (.form f)) arguments env).EndsIn verbosity s result t := by
  obtain ⟨log, hr⟩ := hr
  exact ⟨_, apply_form_eq hxs hn hr⟩

theorem makeClosure_map (names : List String) (body : List Value) (env : Address)
    (verbosity : Verbosity) (s : Store) :
    (SpecialForm.makeClosure (names.map Value.symbol) body env).EndsIn verbosity s
      (.ok (s.newClosure ⟨names, body, env⟩).1) (s.newClosure ⟨names, body, env⟩).2 := by
  have hnames : (names.map Value.symbol).mapM SpecialForm.parameterName = .ok names := by
    induction names with
    | nil => rfl
    | cons name names ih => rw [List.map_cons, mapM_cons_eq, ih]; rfl
  rw [SpecialForm.makeClosure, hnames]
  exact (endsIn_pure names verbosity s).bind (endsIn_update _ verbosity s)

theorem exists_names_of_all (h : parameters.all Value.isSymbol = true) :
    ∃ names : List String, parameters = names.map Value.symbol := by
  induction parameters with
  | nil => exact ⟨[], rfl⟩
  | cons v vs ih =>
    rw [List.all_cons, Bool.and_eq_true] at h
    obtain ⟨name, rfl⟩ := exists_of_isSymbol h.1
    obtain ⟨names, rfl⟩ := ih h.2
    exact ⟨name :: names, rfl⟩

theorem endsIn_bindName (name : String) (v : Value) (env : Address) (verbosity : Verbosity)
    (s : Store) :
    (SpecialForm.bindName name v env).EndsIn verbosity s (.ok .nil) (s.bindHere env name v) :=
  (endsIn_record _ _ verbosity s).bind (endsIn_update _ verbosity s)

theorem endsIn_eval_symbol {v : Value} (hname : (Value.symbol name).isBoolean = false)
    (hl : s.lookup env name = some v) :
    (Eval.eval (depth + 1) (.symbol name) env).EndsIn verbosity s (.ok v) s := by
  refine (endsIn_record _ _ verbosity s).bind ?_
  dsimp only
  rw [hname]
  refine (endsIn_inspect _ verbosity s).bind ?_
  rw [hl]
  exact ⟨_, rfl⟩

/-- An expression `(lambda (parameter ...) body ...)` comes to what making the closure comes to. -/
theorem endsIn_eval_lambda
    (hl : s.lookup env SpecialForm.lambda.name = some (.builtin (.form .lambda)))
    (hx : s.elements? expression = some (.symbol SpecialForm.lambda.name :: list :: body))
    (hp : s.elements? list = some parameters) (hb : body ≠ [])
    (hr : (SpecialForm.makeClosure parameters body env).EndsIn verbosity s result t) :
    (Eval.eval (depth + 2) expression env).EndsIn verbosity s result t := by
  obtain ⟨p, rfl, hfirst, hrest⟩ := exists_pair_of_elements? hx
  have hlambda : (SpecialForm.lambda.run (Eval.eval (depth + 1)) (list :: body) env).EndsIn
      verbosity s result t := by
    refine (endsIn_inspect _ verbosity s).bind ?_
    rw [hp]
    exact hr
  have hcallee : (Eval.eval (depth + 1) (s.first p) env).EndsIn verbosity s
      (.ok (.builtin (.form .lambda))) s := by
    rw [hfirst]
    exact endsIn_eval_symbol (by decide) hl
  have hn : SpecialForm.lambda.arity.accepts (list :: body).length = true :=
    accepts_cons_of_ne_nil hb list
  refine (endsIn_record _ _ verbosity s).bind ?_
  refine (endsIn_inspect _ verbosity s).bind (hcallee.bind ?_)
  exact (endsIn_inspect _ verbosity s).bind (endsIn_apply_form hrest hn hlambda)

/-- What both ways to define a procedure come to. -/
def defineLambda (name : String) (parameters body : List Value) (env : Address) : EvalM Value := do
  SpecialForm.bindName name (← SpecialForm.makeClosure parameters body env) env

theorem endsIn_defineLambda_map (name : String) (names : List String) (body : List Value)
    (env : Address) (verbosity : Verbosity) (s : Store) :
    (defineLambda name (names.map Value.symbol) body env).EndsIn verbosity s (.ok .nil)
      (s.defineClosure env name ⟨names, body, env⟩) :=
  (makeClosure_map names body env verbosity s).bind (endsIn_bindName name _ env verbosity _)

theorem endsIn_defineLambda_of_not_all (h : parameters.all Value.isSymbol = false) (name : String)
    (body : List Value) (env : Address) (verbosity : Verbosity) (s : Store) :
    (defineLambda name parameters body env).EndsIn verbosity s (.error .parameterNotASymbol) s :=
  EndsIn.bind_error ⟨_, makeClosure_of_not_all h⟩

theorem endsIn_apply_declaration (h : s.IsDeclaration arguments name parameters body)
    (hb : body ≠ [])
    (hr : (defineLambda name parameters body env).EndsIn verbosity s result t) :
    (apply eval (.builtin (.form .define)) arguments env).EndsIn verbosity s result t := by
  obtain ⟨target, hxs, hvs⟩ := h
  refine endsIn_apply_form hxs (accepts_cons_of_ne_nil hb target) ?_
  change (SpecialForm.runDefine eval target body env).EndsIn verbosity s result t
  rw [runDefine_of_isSymbol_eq_false (isSymbol_of_elements? hvs)]
  refine (endsIn_inspect _ verbosity s).bind ?_
  rw [hvs]
  exact hr

theorem endsIn_apply_lambdaDefinition (h : s.IsLambdaDefinition arguments name parameters body)
    (hl : s.lookup env SpecialForm.lambda.name = some (.builtin (.form .lambda)))
    (hb : body ≠ [])
    (hr : (defineLambda name parameters body env).EndsIn verbosity s result t) :
    (apply (Eval.eval (depth + 2)) (.builtin (.form .define)) arguments env).EndsIn verbosity s
      result t := by
  obtain ⟨expression, list, hxs, hx, hp⟩ := h
  refine endsIn_apply_form hxs rfl ?_
  exact EndsIn.bind_of_forall (fun r u hr ↦ endsIn_eval_lambda hl hx hp hb hr) hr

end Eval

end MiniScheme
