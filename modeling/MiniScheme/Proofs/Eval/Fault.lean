import MiniScheme.Proofs.Eval.Alike
import MiniScheme.Proofs.Eval.Application
import Mathlib.Data.List.Nodup

namespace MiniScheme

/-- What can be wrong with the form of a call. -/
inductive CallFault
  | improperArguments
  | argumentCount
  | surplusExpressions
  | definedTarget
  | definedName
  | parameters
  | assignedName
  deriving DecidableEq, Repr

namespace CallFault

/-- The faults in the order in which they are looked for. -/
def all : List CallFault :=
  [improperArguments, argumentCount, surplusExpressions, definedTarget, definedName, parameters,
    assignedName]

/-- A wrong number of arguments is an error of form only where the callee is a form. -/
def kind (callee : Value) : CallFault → ErrorKind
  | improperArguments | surplusExpressions | parameters => .form
  | definedTarget | definedName | assignedName => .runtime
  | argumentCount =>
    match callee with
    | .builtin (.form _) => .form
    | _ => .runtime

end CallFault

namespace Store

end Store

open Store EvalM Eval

variable {s : Store} {callee arguments target : Value} {xs vs : List Value} {f : SpecialForm}
  {fault earlier : CallFault} {e : Error}

namespace Eval

theorem exists_of_isSymbol {v : Value} (h : v.isSymbol = true) : ∃ name, v = .symbol name := by
  match v with
  | .symbol name => exact ⟨name, rfl⟩
  | .nil | .integer _ | .builtin _ | .closure _ | .pair _ => cases h

section Forms

variable {eval : Evaluator} {scope : Address} {verbosity : Verbosity} {body : List Value}
  {name : Value} {parameters : List Value}

theorem mapM_parameterName_of_not_all (h : vs.all Value.isSymbol = false) :
    vs.mapM SpecialForm.parameterName = .error .parameterNotASymbol := by
  induction vs with
  | nil => cases h
  | cons v vs ih =>
    rw [mapM_cons_eq]
    match v with
    | .symbol name => rw [ih h]; rfl
    | .nil | .integer _ | .builtin _ | .closure _ | .pair _ => rfl

theorem makeClosure_of_not_all (h : vs.all Value.isSymbol = false) :
    SpecialForm.makeClosure vs body scope verbosity s =
      .ok ⟨.error .parameterNotASymbol, s, []⟩ := by
  rw [SpecialForm.makeClosure, mapM_parameterName_of_not_all h]
  rfl

theorem runDefine_of_isSymbol_eq_false (hv : target.isSymbol = false) :
    SpecialForm.runDefine eval target body scope = defineProcedure target body scope := by
  apply runDefine_of_ne
  intro name heq
  rw [heq] at hv
  cases hv

theorem isSymbol_of_elements? (hvs : s.elements? target = some vs) : target.isSymbol = false := by
  match target with
  | .symbol name => cases hvs
  | .nil | .integer _ | .builtin _ | .closure _ | .pair _ => rfl

end Forms

section Faults

variable (hxs : s.elements? arguments = some xs)
include hxs

variable {arity : Arity} (ha : s.arity? callee = some arity)
  (hn : arity.accepts xs.length = true)
include ha hn

end Faults

end Eval

end MiniScheme
