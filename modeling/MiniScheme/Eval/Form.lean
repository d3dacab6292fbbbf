import MiniScheme.Eval.Monad
import MiniScheme.Store.Chain
import MiniScheme.Store.Scope

namespace MiniScheme

abbrev Evaluator := Value → Address → EvalM Value

namespace SpecialForm

open EvalM

def parameterName : Value → Except Error String
  | .symbol name => .ok name
  | _ => .error .parameterNotASymbol

/-- A closure that remembers the scope it is written in. -/
def makeClosure (parameters body : List Value) (scope : Address) : EvalM Value := do
  let names ← ofExcept (parameters.mapM parameterName)
  update fun s ↦ s.newClosure ⟨names, body, scope⟩

def bindName (name : String) (v : Value) (scope : Address) : EvalM Value := do
  record .debug fun s ↦ .define name (s.text v)
  update fun s ↦ (.nil, (s.define scope name v).2)

def assignName (name : String) (v : Value) (scope : Address) : EvalM Value := fun _ s ↦
  match s.assign scope name v with
  | some s => .ok ⟨.ok .nil, s, []⟩
  | none => .ok ⟨.error (.unboundName name), s, []⟩

/-- Binds a name to a value, or to a closure if it stands in front of parameters. -/
def runDefine (eval : Evaluator) (target : Value) (body : List Value) (scope : Address) :
    EvalM Value :=
  match target with
  | .symbol name =>
    match body with
    | [expression] => do bindName name (← eval expression scope) scope
    | _ => fail (.formArity ⟨define.name, .exactly 2, body.length + 1⟩)
  | target => do
    match ← inspect fun s ↦ s.elements? target with
    | some (.symbol name :: parameters) =>
      bindName name (← makeClosure parameters body scope) scope
    | some (_ :: _) => fail .definedNameNotASymbol
    | _ => fail .badDefineTarget

/-- The first value that decides, else the last one. -/
def firstDeciding (eval : Evaluator) (decides : Value → Bool) (scope : Address) (last : Value) :
    List Value → EvalM Value
  | [] => pure last
  | expression :: rest => do
    let v ← eval expression scope
    if decides v then pure v else firstDeciding eval decides scope v rest

def run (eval : Evaluator) (form : SpecialForm) (arguments : List Value) (scope : Address) :
    EvalM Value :=
  match form, arguments with
  | quote, [datum] => pure datum
  | conditional, [condition, consequent] => do
    if (← eval condition scope).isTrue then eval consequent scope else pure .nil
  | conditional, [condition, consequent, alternative] => do
    if (← eval condition scope).isTrue then eval consequent scope else eval alternative scope
  | define, target :: body => runDefine eval target body scope
  | assign, [.symbol name, expression] => do assignName name (← eval expression scope) scope
  | assign, [_, _] => fail .assignedNameNotASymbol
  | lambda, parameters :: body => do
    match ← inspect fun s ↦ s.elements? parameters with
    | some parameters => makeClosure parameters body scope
    | none => fail .parametersNotAList
  | conjunction, expressions =>
    firstDeciding eval Value.isFalse scope (.boolean true) expressions
  | disjunction, expressions =>
    firstDeciding eval Value.isTrue scope (.boolean false) expressions
  | form, arguments => halt (.malformedCall (.form form) arguments.length)

end SpecialForm

end MiniScheme
