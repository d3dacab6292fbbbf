import MiniScheme.Eval.Form
import MiniScheme.Eval.Procedure

namespace MiniScheme.Eval

open EvalM

def values (eval : Evaluator) (expressions : List Value) (scope : Address) : EvalM (List Value) :=
  expressions.mapM fun expression ↦ eval expression scope

/-- Evaluates expressions from left to right for the value of the last one. -/
def lastValue (eval : Evaluator) (expressions : List Value) (scope : Address) : EvalM Value :=
  match expressions with
  | [] => pure .nil
  | [expression] => eval expression scope
  | expression :: rest => do
    let _ ← eval expression scope
    lastValue eval rest scope

def checkArity (name : String) (expected : Arity) (received : Nat)
    (e : ArityMismatch → Error) : EvalM Unit :=
  if expected.accepts received then pure () else fail (e ⟨name, expected, received⟩)

/-- A form decides by itself what to evaluate; a procedure has all its arguments evaluated. -/
def applyBuiltin (eval : Evaluator) (b : Builtin) (arguments : List Value) (scope : Address) :
    EvalM Value :=
  match b with
  | .form f => do
    checkArity f.name f.arity arguments.length .formArity
    record .trace fun s ↦ .apply f (arguments.map s.text)
    reporting b (f.run eval arguments scope)
  | .procedure p => do
    checkArity p.name p.arity arguments.length .callArity
    let received ← values eval arguments scope
    record .trace fun s ↦ .call p (received.map s.text)
    reporting b (p.run received)

/-- Evaluates the body in a new scope, inside the one that the closure remembers, where the
parameters are bound to the arguments. -/
def applyClosure (eval : Evaluator) (c : Closure) (arguments : List Value) (scope : Address) :
    EvalM Value := do
  checkArity SpecialForm.lambda.name c.arity arguments.length .callArity
  let received ← values eval arguments scope
  let inner ← update fun s ↦ s.openScope c.scope (c.parameters.zip received)
  record .trace fun s ↦ .enter (s.scopesText inner)
  lastValue eval c.body inner

def argumentsOf (arguments : Value) : EvalM (List Value) := do
  match ← inspect fun s ↦ s.elements? arguments with
  | some elements => pure elements
  | none => fail .improperArguments

def apply (eval : Evaluator) (callee arguments : Value) (scope : Address) : EvalM Value :=
  match callee with
  | .builtin b => do applyBuiltin eval b (← argumentsOf arguments) scope
  | .closure c => do
    let closure ← inspect fun s ↦ s.closure c
    applyClosure eval closure (← argumentsOf arguments) scope
  | callee => do fail (.notCallable (← inspect fun s ↦ s.text callee))

end MiniScheme.Eval
