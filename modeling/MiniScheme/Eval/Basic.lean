import MiniScheme.Eval.Apply

namespace MiniScheme.Eval

open EvalM

def fetch (name : String) (scope : Address) : EvalM Value := do
  match ← inspect fun s ↦ s.lookup scope name with
  | some v => pure v
  | none => fail (.unboundName name)

/-- Evaluates an expression, given how to evaluate those inside it. -/
def step (eval : Evaluator) (expression : Value) (scope : Address) : EvalM Value := do
  record .trace fun s ↦ .evaluate (s.text expression)
  match expression with
  | .integer _ => pure expression
  | .symbol name => if expression.isBoolean then pure expression else fetch name scope
  | .pair p => do
    let callee ← eval (← inspect fun s ↦ s.first p) scope
    apply eval callee (← inspect fun s ↦ s.second p) scope
  | .nil => fail .emptyListNotEvaluable
  | .builtin _ | .closure _ => do
    fail (.procedureNotEvaluable (← inspect fun s ↦ s.text expression))

/-- Evaluates an expression in a scope, with at most `depth` evaluations inside each other. -/
def eval (depth : Nat) (expression : Value) (scope : Address) : EvalM Value :=
  match depth with
  | 0 => halt .depthExceeded
  | depth + 1 => step (eval depth) expression scope

/-- Reads the one datum of a text into new pairs and evaluates it in a scope. -/
def evalText (depth : Nat) (text : String) (scope : Address) : EvalM Value := do
  let datum ← ofExcept ((Datum.ofText text).mapError .reading)
  let expression ← update fun s ↦ s.load datum
  record .debug fun s ↦ .read (s.text expression)
  eval depth expression scope

def answerText (depth : Nat) (text : String) (scope : Address) : EvalM String := do
  let v ← evalText depth text scope
  inspect fun s ↦ s.text v

end MiniScheme.Eval
