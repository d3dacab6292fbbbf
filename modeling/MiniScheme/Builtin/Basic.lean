import MiniScheme.Builtin.Arity

namespace MiniScheme

/-- Built-ins that receive their arguments unevaluated. -/
inductive SpecialForm
  | quote
  | conditional
  | define
  | assign
  | lambda
  | conjunction
  | disjunction
  deriving DecidableEq, Repr

namespace SpecialForm

def name : SpecialForm → String
  | quote => "quote"
  | conditional => "if"
  | define => "define"
  | assign => "set!"
  | lambda => "lambda"
  | conjunction => "and"
  | disjunction => "or"

def arity : SpecialForm → Arity
  | quote => .exactly 1
  | conditional => .between 2 3
  | define => .atLeast 2
  | assign => .exactly 2
  | lambda => .atLeast 2
  | conjunction => .atLeast 0
  | disjunction => .atLeast 0

def all : List SpecialForm :=
  [quote, conditional, define, assign, lambda, conjunction, disjunction]

end SpecialForm

inductive Comparison
  | less
  | atMost
  | greater
  | atLeast
  | equal
  deriving DecidableEq, Repr

namespace Comparison

def name : Comparison → String
  | less => "<"
  | atMost => "<="
  | greater => ">"
  | atLeast => ">="
  | equal => "="

def all : List Comparison := [less, atMost, greater, atLeast, equal]

end Comparison

inductive Predicate
  | isPair
  | isNull
  | isList
  | isNumber
  | isSymbol
  | isBoolean
  | isFalse
  deriving DecidableEq, Repr

namespace Predicate

def name : Predicate → String
  | isPair => "pair?"
  | isNull => "null?"
  | isList => "list?"
  | isNumber => "number?"
  | isSymbol => "symbol?"
  | isBoolean => "boolean?"
  | isFalse => "not"

def all : List Predicate := [isPair, isNull, isList, isNumber, isSymbol, isBoolean, isFalse]

end Predicate

/-- Built-ins whose arguments are evaluated before they run. -/
inductive Procedure
  | cons
  | car
  | cdr
  | setCar
  | setCdr
  | list
  | listTail
  | listRef
  | add
  | subtract
  | multiply
  | divide
  | least
  | greatest
  | magnitude
  | compare (comparison : Comparison)
  | test (predicate : Predicate)
  deriving DecidableEq, Repr

namespace Procedure

def name : Procedure → String
  | cons => "cons"
  | car => "car"
  | cdr => "cdr"
  | setCar => "set-car!"
  | setCdr => "set-cdr!"
  | list => "list"
  | listTail => "list-tail"
  | listRef => "list-ref"
  | add => "+"
  | subtract => "-"
  | multiply => "*"
  | divide => "/"
  | least => "min"
  | greatest => "max"
  | magnitude => "abs"
  | compare comparison => comparison.name
  | test predicate => predicate.name

def arity : Procedure → Arity
  | cons => .exactly 2
  | car => .exactly 1
  | cdr => .exactly 1
  | setCar => .exactly 2
  | setCdr => .exactly 2
  | list => .atLeast 0
  | listTail => .exactly 2
  | listRef => .exactly 2
  | add => .atLeast 0
  | subtract => .atLeast 1
  | multiply => .atLeast 0
  | divide => .atLeast 1
  | least => .atLeast 1
  | greatest => .atLeast 1
  | magnitude => .exactly 1
  | compare _ => .atLeast 0
  | test _ => .exactly 1

def all : List Procedure :=
  [cons, car, cdr, setCar, setCdr, list, listTail, listRef, add, subtract, multiply, divide,
    least, greatest, magnitude] ++ Comparison.all.map compare ++ Predicate.all.map test

end Procedure

inductive Builtin
  | form (f : SpecialForm)
  | procedure (p : Procedure)
  deriving DecidableEq, Repr

namespace Builtin

def name : Builtin → String
  | form f => f.name
  | procedure p => p.name

def arity : Builtin → Arity
  | form f => f.arity
  | procedure p => p.arity

def describeKind : Builtin → String
  | form _ => "special form"
  | procedure _ => "procedure"

def all : List Builtin := SpecialForm.all.map form ++ Procedure.all.map procedure

theorem mem_all (b : Builtin) : b ∈ all := by
  rcases b with f | p
  · cases f <;> decide
  · rcases p with _ | _ | _ | _ | _ | _ | _ | _ | _ | _ | _ | _ | _ | _ | _ | c | q
    case compare => cases c <;> decide
    case test => cases q <;> decide
    all_goals decide

theorem nodup_name_all : (all.map name).Nodup := by decide

end Builtin

end MiniScheme
