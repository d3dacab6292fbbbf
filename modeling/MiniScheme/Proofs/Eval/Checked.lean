import MiniScheme.Eval.Apply
import MiniScheme.Proofs.Eval.Tame
import MiniScheme.Proofs.Token.Checked
import Mathlib.Data.List.Basic

namespace MiniScheme

theorem Arity.exists_cons_of_accepts {n : Nat} {vs : List Value}
    (h : (Arity.atLeast (n + 1)).accepts vs.length = true) : ∃ v ws, vs = v :: ws := by
  have hl : n + 1 ≤ vs.length := of_decide_eq_true h
  exact List.exists_cons_of_length_pos (Nat.lt_of_lt_of_le n.succ_pos hl)

namespace EvalM

variable {α β : Type}

/-- What an index or a slice has found. A built-in that is out of range gives no answer. -/
def demand (b : Builtin) (received : Nat) : Option α → EvalM α
  | some a => pure a
  | none => halt (.malformedCall b received)

@[simp] theorem demand_some (b : Builtin) (received : Nat) (a : α) :
    demand b received (some a) = pure a := rfl

theorem ofExcept_ok (a : α) : ofExcept (.ok a) = (pure a : EvalM α) := rfl

theorem inspect_bind_congr {look : Store → α} {f g : α → EvalM β}
    (h : ∀ s, f (look s) = g (look s)) : (inspect look >>= f) = (inspect look >>= g) := by
  funext verbosity s
  change EvalM.bind _ f verbosity s = EvalM.bind _ g verbosity s
  simp only [EvalM.bind, inspect, h]

theorem fail_bind (e : Error) (f : α → EvalM β) : (fail e >>= f) = fail e := rfl

end EvalM

namespace Arithmetic

/-- Division towards zero, which no machine does for a divisor of zero. -/
def divide? (x y : Int64) : Option Int64 := if y = 0 then none else some (x / y)

end Arithmetic

/-- The messages of the log index the only argument of a call. -/
def Event.argumentsText? (arguments : List String) : Option String :=
  match arguments.length with
  | 0 => some "no args"
  | 1 => arguments[0]?
  | _ => some ("\n\t" ++ "\n\t".intercalate arguments)

namespace Procedure

open EvalM

/-- The argument at a place, which the arity is trusted to allow. -/
def argument (p : Procedure) (arguments : List Value) (i : Nat) : EvalM Value :=
  demand (.procedure p) arguments.length arguments[i]?

def divideChecked (received : Nat) (x y : Int64) : EvalM Int64 :=
  if y = 0 then fail .divisionByZero
  else demand (.procedure divide) received (Arithmetic.divide? x y)

/-- The procedures with their arguments taken by place, and division only where it is defined. -/
def runChecked (p : Procedure) (arguments : List Value) : EvalM Value :=
  match p with
  | cons => do
    let first ← p.argument arguments 0
    let second ← p.argument arguments 1
    update fun s ↦ s.cons first second
  | car => do
    let pair ← ofExcept (← p.argument arguments 0).toPair
    inspect fun s ↦ s.first pair
  | cdr => do
    let pair ← ofExcept (← p.argument arguments 0).toPair
    inspect fun s ↦ s.second pair
  | setCar => do
    let pair ← ofExcept (← p.argument arguments 0).toPair
    let new ← p.argument arguments 1
    update fun s ↦ (.nil, s.setFirst pair new)
  | setCdr => do
    let pair ← ofExcept (← p.argument arguments 0).toPair
    let new ← p.argument arguments 1
    update fun s ↦ (.nil, s.setSecond pair new)
  | listTail => do
    let index ← ofExcept (← p.argument arguments 1).toInteger
    let v ← p.argument arguments 0
    ofExcept (← inspect fun s ↦ s.listTail v index)
  | listRef => do
    let index ← ofExcept (← p.argument arguments 1).toInteger
    let v ← p.argument arguments 0
    ofExcept (← inspect fun s ↦ s.listRef v index)
  | divide =>
    match arguments with
    | [v] => do return .integer (← divideChecked 1 1 (← ofExcept v.toInteger))
    | first :: others => do
      let x ← ofExcept first.toInteger
      let ys ← integersOf others
      return .integer (← ys.foldlM (divideChecked arguments.length) x)
    | [] => fail (.callArity ⟨divide.name, .atLeast 1, 0⟩)
  | magnitude => do
    return .integer (← ofExcept (← p.argument arguments 0).toInteger).abs
  | test q => do
    let v ← p.argument arguments 0
    inspect fun s ↦ .boolean (q.holds s v)
  | list | add | subtract | multiply | least | greatest | compare _ => p.run arguments

theorem divideChecked_eq (received : Nat) (x y : Int64) :
    divideChecked received x y = ofExcept (Arithmetic.divide x y) := by
  rw [divideChecked, Arithmetic.divide, Arithmetic.divide?]
  split <;> rfl

theorem foldlM_divideChecked_eq (received : Nat) (x : Int64) (ys : List Int64) :
    ys.foldlM (divideChecked received) x = ofExcept (ys.foldlM Arithmetic.divide x) := by
  induction ys generalizing x with
  | nil => rfl
  | cons y ys ih =>
    rw [List.foldlM_cons, List.foldlM_cons, divideChecked_eq]
    cases Arithmetic.divide x y with
    | error e => rfl
    | ok q =>
      rw [ofExcept_ok, pure_bind, ih]
      rfl

theorem exists_cons_of_mapM {v : Value} {vs : List Value} {ns : List Int64}
    (h : (v :: vs).mapM Value.toInteger = .ok ns) : ∃ m ms, ns = m :: ms := by
  rw [mapM_cons_eq] at h
  split at h
  · cases h
  · cases h
  · next m ms _ _ =>
    cases h
    exact ⟨m, ms, rfl⟩

/-- The arity of a procedure allows every place that the procedure looks at. -/
theorem runChecked_eq {p : Procedure} {arguments : List Value}
    (h : p.arity.accepts arguments.length = true) : p.runChecked arguments = p.run arguments := by
  cases p with
  | cons | setCar | setCdr | listTail | listRef =>
    obtain ⟨v, w, rfl⟩ := List.length_eq_two.1 (Arity.accepts_exactly.1 h)
    simp [runChecked, run, argument]
  | car | cdr | magnitude | test =>
    obtain ⟨v, rfl⟩ := List.length_eq_one_iff.1 (Arity.accepts_exactly.1 h)
    simp [runChecked, run, argument]
  | divide =>
    obtain ⟨v, others, rfl⟩ := Arity.exists_cons_of_accepts h
    cases others with
    | nil =>
      have hn : integersOf [] = pure [] := rfl
      simp [runChecked, run, hn, divideChecked_eq, Arithmetic.quotient]
    | cons w others =>
      simp only [runChecked, run, integersOf, foldlM_divideChecked_eq]
      congr 1
      funext x
      cases hm : (w :: others).mapM Value.toInteger with
      | error e => rfl
      | ok ys =>
        obtain ⟨y, ys, rfl⟩ := exists_cons_of_mapM hm
        rfl
  | list | add | subtract | multiply | least | greatest | compare => rfl

end Procedure

theorem Event.argumentsText?_eq (arguments : List String) :
    Event.argumentsText? arguments = some (Event.argumentsText arguments) := by
  rcases arguments with _ | ⟨text, _ | ⟨other, texts⟩⟩ <;> rfl

theorem Store.exists_cons_of_elements? {s : Store} {p : Address} {vs : List Value}
    (h : s.elements? (.pair p) = some vs) : ∃ v ws, vs = v :: ws := by
  obtain ⟨ws, -, rfl⟩ := Option.map_eq_some_iff.1 h
  exact ⟨_, ws, rfl⟩

namespace SpecialForm

open EvalM Eval

def argument (form : SpecialForm) (arguments : List Value) (i : Nat) : EvalM Value :=
  demand (.form form) arguments.length arguments[i]?

def argumentsFrom (form : SpecialForm) (arguments : List Value) (start : Nat) :
    EvalM (List Value) :=
  demand (.form form) arguments.length (sliceFrom? arguments start)

/-- A declaration is taken apart by place only after it is found to be a pair and a list. -/
def runDefineChecked (eval : Evaluator) (arguments : List Value) (scope : Address) :
    EvalM Value := do
  match ← define.argument arguments 0 with
  | .symbol name =>
    checkArity define.name (.exactly 2) arguments.length .formArity
    bindName name (← eval (← define.argument arguments 1) scope) scope
  | target =>
    match target.isPair, ← inspect fun s ↦ s.elements? target with
    | true, some declaration =>
      match ← define.argument declaration 0 with
      | .symbol name =>
        let parameters ← define.argumentsFrom declaration 1
        let body ← define.argumentsFrom arguments 1
        bindName name (← makeClosure parameters body scope) scope
      | _ => fail .definedNameNotASymbol
    | _, _ => fail .badDefineTarget

/-- The forms with their arguments taken by place. -/
def runChecked (eval : Evaluator) (form : SpecialForm) (arguments : List Value)
    (scope : Address) : EvalM Value :=
  match form with
  | quote => quote.argument arguments 0
  | conditional => do
    if (← eval (← conditional.argument arguments 0) scope).isTrue then
      eval (← conditional.argument arguments 1) scope
    else if arguments.length = 3 then
      eval (← conditional.argument arguments 2) scope
    else
      pure .nil
  | define => runDefineChecked eval arguments scope
  | assign => do
    match ← assign.argument arguments 0 with
    | .symbol name => assignName name (← eval (← assign.argument arguments 1) scope) scope
    | _ => fail .assignedNameNotASymbol
  | lambda => do
    let v ← lambda.argument arguments 0
    match ← inspect fun s ↦ s.elements? v with
    | some parameters => makeClosure parameters (← lambda.argumentsFrom arguments 1) scope
    | none => fail .parametersNotAList
  | conjunction | disjunction => form.run eval arguments scope

variable {eval : Evaluator} {arguments : List Value} {scope : Address}

theorem runDefineChecked_eq (target : Value) (body : List Value) :
    runDefineChecked eval (target :: body) scope = runDefine eval target body scope := by
  rw [runDefineChecked, argument, List.getElem?_cons_zero, demand_some, pure_bind]
  rcases target with (_ | _ | name | _ | _) | p
  case atom.symbol =>
    rcases body with _ | ⟨expression, _ | ⟨other, body⟩⟩
    · rfl
    · simp [runDefine, argument, checkArity]
    · simp [runDefine, checkArity, Arity.accepts, Arity.exactly, fail_bind]
  case pair =>
    apply inspect_bind_congr
    intro s
    cases hs : s.elements? (.pair p) with
    | none => rfl
    | some declaration =>
      obtain ⟨v, parameters, rfl⟩ := Store.exists_cons_of_elements? hs
      rcases v with (_ | _ | _ | _ | _) | _ <;>
        simp [Value.isPair, argument, argumentsFrom, sliceFrom?_cons_one]
  -- No other value is a pair, and the list that one of them stands for has no first element.
  all_goals
    apply inspect_bind_congr
    intro s
    rfl

theorem runChecked_eq {form : SpecialForm} (h : form.arity.accepts arguments.length = true) :
    form.runChecked eval arguments scope = form.run eval arguments scope := by
  cases form with
  | quote =>
    obtain ⟨v, rfl⟩ := List.length_eq_one_iff.1 (Arity.accepts_exactly.1 h)
    simp [runChecked, run, argument]
  | conditional =>
    have hl : arguments.length = 2 ∨ arguments.length = 3 := by
      simp only [arity, Arity.accepts, Bool.and_eq_true, decide_eq_true_eq] at h
      omega
    rcases hl with hl | hl
    · obtain ⟨condition, consequent, rfl⟩ := List.length_eq_two.1 hl
      simp [runChecked, run, argument]
    · obtain ⟨condition, consequent, alternative, rfl⟩ := List.length_eq_three.1 hl
      simp [runChecked, run, argument]
  | define =>
    obtain ⟨target, body, rfl⟩ := Arity.exists_cons_of_accepts h
    exact runDefineChecked_eq target body
  | assign =>
    obtain ⟨target, expression, rfl⟩ := List.length_eq_two.1 (Arity.accepts_exactly.1 h)
    rcases target with (_ | _ | _ | _ | _) | _ <;> simp [runChecked, run, argument]
  | lambda =>
    obtain ⟨parameters, body, rfl⟩ := Arity.exists_cons_of_accepts h
    rw [runChecked, argument, List.getElem?_cons_zero, demand_some, pure_bind]
    apply inspect_bind_congr
    intro s
    cases s.elements? parameters with
    | none => rfl
    | some names => simp [argumentsFrom, sliceFrom?_cons_one]
  | conjunction | disjunction => rfl

end SpecialForm

namespace Eval

open EvalM

/-- A call of a built-in whose body takes its arguments by place. -/
def applyChecked (eval : Evaluator) (b : Builtin) (arguments : List Value) (scope : Address) :
    EvalM Value :=
  match b with
  | .form f => do
    checkArity f.name f.arity arguments.length .formArity
    record .trace fun s ↦ .apply f (arguments.map s.text)
    reporting b (f.runChecked eval arguments scope)
  | .procedure p => do
    checkArity p.name p.arity arguments.length .callArity
    let received ← values eval arguments scope
    record .trace fun s ↦ .call p (received.map s.text)
    reporting b (p.runChecked received)

theorem checkArity_bind_congr {α : Type} {name : String} {expected : Arity} {received : Nat}
    {e : ArityMismatch → Error} {f g : Unit → EvalM α}
    (h : expected.accepts received = true → f () = g ()) :
    (checkArity name expected received e >>= f) = (checkArity name expected received e >>= g) := by
  rw [checkArity]
  split
  · next ha => rw [pure_bind, pure_bind, h ha]
  · rfl

/-- There are as many values as expressions. -/
theorem values_bind_congr {α : Type} {eval : Evaluator} {expressions : List Value}
    {scope : Address} {f g : List Value → EvalM α}
    (h : ∀ vs, vs.length = expressions.length → f vs = g vs) :
    (values eval expressions scope >>= f) = (values eval expressions scope >>= g) := by
  induction expressions generalizing f g with
  | nil =>
    rw [values, List.mapM_nil, pure_bind, pure_bind]
    exact h [] rfl
  | cons x xs ih =>
    have hcons (k : List Value → EvalM α) : (values eval (x :: xs) scope >>= k) =
        eval x scope >>= fun v ↦ values eval xs scope >>= fun vs ↦ k (v :: vs) := by
      rw [values, List.mapM_cons]
      simp [values]
    rw [hcons, hcons]
    congr 1
    funext v
    exact ih fun vs hl ↦ h (v :: vs) (congrArg (· + 1) hl)

/-- No body looks at an argument that the arity does not promise, nor divides by zero. -/
theorem applyChecked_eq (eval : Evaluator) (b : Builtin) (arguments : List Value)
    (scope : Address) :
    applyChecked eval b arguments scope = applyBuiltin eval b arguments scope := by
  cases b with
  | form f =>
    apply checkArity_bind_congr
    intro ha
    rw [SpecialForm.runChecked_eq ha]
  | procedure p =>
    apply checkArity_bind_congr
    intro ha
    apply values_bind_congr
    intro vs hl
    rw [Procedure.runChecked_eq (hl ▸ ha)]

end Eval

end MiniScheme
