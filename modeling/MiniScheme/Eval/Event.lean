import MiniScheme.Error

namespace MiniScheme

inductive Level
  | debug
  | trace
  deriving DecidableEq, Repr

inductive Verbosity
  | silent
  | debug
  | trace
  deriving DecidableEq, Repr

def Verbosity.shows : Verbosity → Level → Bool
  | silent, _ => false
  | debug, level => level == .debug
  | trace, _ => true

/-- What is worth telling about an evaluation. Values are given by their written form at that
moment, since their slots may change later. -/
inductive Event
  | read (text : String)
  | evaluate (text : String)
  | apply (form : SpecialForm) (arguments : List String)
  | call (procedure : Procedure) (arguments : List String)
  | returned (callee : Builtin) (text : String)
  | failed (callee : Builtin) (e : Error)
  | enter (scopes : String)
  | define (name text : String)
  deriving DecidableEq, Repr

namespace Event

def level : Event → Level
  | read _ | define _ _ => .debug
  | _ => .trace

/-- One argument on the same line, several on a line each. -/
def argumentsText : List String → String
  | [] => "no args"
  | [text] => text
  | texts => "\n\t" ++ "\n\t".intercalate texts

def message : Event → String
  | read text => "read " ++ text
  | evaluate text => "eval " ++ text
  | apply form arguments => "Apply " ++ form.name ++ " to " ++ argumentsText arguments
  | call procedure arguments => "Call " ++ procedure.name ++ " with " ++ argumentsText arguments
  | returned callee text => "Call to " ++ callee.name ++ " resulted in " ++ text
  | failed callee e => "Call to " ++ callee.name ++ " failed: " ++ e.message
  | enter scopes => "closure scopes:\n" ++ scopes
  | define name text => "define " ++ name ++ " as " ++ text

end Event

end MiniScheme
