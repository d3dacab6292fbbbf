import MiniScheme.Datum.Reader

namespace MiniScheme

inductive ErrorKind
  | form
  | runtime
  | name
  deriving DecidableEq, Repr

def ErrorKind.describe : ErrorKind → String
  | form => "SyntaxError"
  | runtime => "RuntimeError"
  | name => "NameError"

inductive Error
  | reading (e : ReadError)
  | improperArguments
  | formArity (mismatch : ArityMismatch)
  | parametersNotAList
  | parameterNotASymbol
  | callArity (mismatch : ArityMismatch)
  | notCallable (text : String)
  | emptyListNotEvaluable
  | procedureNotEvaluable (text : String)
  | notANumber
  | notAPair
  | badIndex (index : Int64)
  | divisionByZero
  | definedNameNotASymbol
  | badDefineTarget
  | assignedNameNotASymbol
  | unboundName (name : String)
  deriving DecidableEq, Repr

namespace Error

def kind : Error → ErrorKind
  | reading _ | improperArguments | formArity _ | parametersNotAList | parameterNotASymbol => .form
  | unboundName _ => .name
  | _ => .runtime

def message : Error → String
  | reading e => e.message
  | improperArguments => "argument list is not a proper list"
  | formArity mismatch => mismatch.message
  | parametersNotAList => "lambda: parameters should be given as a proper list"
  | parameterNotASymbol => "lambda: parameters should be symbols"
  | callArity mismatch => mismatch.message
  | notCallable text => text ++ " is not a procedure"
  | emptyListNotEvaluable => "the empty list is not evaluable"
  | procedureNotEvaluable text => text ++ " is not evaluable"
  | notANumber => "type mismatch: expected a number"
  | notAPair => "type mismatch: expected a pair"
  | badIndex index => "bad index: " ++ toString index.toInt
  | divisionByZero => "cannot divide by zero!"
  | definedNameNotASymbol => "define: name of lambda should be a symbol"
  | badDefineTarget => "define: first argument should be a symbol or a lambda declaration"
  | assignedNameNotASymbol => "set!: name of variable should be a symbol"
  | unboundName name => "'" ++ name ++ "' not found"

def describe (e : Error) : String := e.kind.describe ++ ": " ++ e.message

end Error

end MiniScheme
