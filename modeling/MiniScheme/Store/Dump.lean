import MiniScheme.Store.Basic
import MiniScheme.Text.Quoted

namespace MiniScheme

def Builtin.dump (b : Builtin) : String := "primitive function #<" ++ b.name ++ ">"

namespace Store

def closureDump (valueDump : Value → String) (c : Closure) : String :=
  "Closure\x7bparameters: (" ++ " ".intercalate c.parameters ++ "), body: [" ++
    ", ".intercalate (c.body.map valueDump) ++ "]\x7d"

def slotDump (label dump : String) : String :=
  label ++ ": RefCell \x7b value: " ++ dump ++ " \x7d"

/-- All constructors of a value, down to `k` pairs and closures. -/
def dumpWithin (s : Store) : Nat → Value → String
  | _, .nil => "Nil"
  | _, .integer n => "Integer(" ++ toString n.toInt ++ ")"
  | _, .symbol name => "Symbol(Symbol(" ++ Text.quoteText name ++ "))"
  | _, .builtin b => "Primitive(" ++ b.dump ++ ")"
  | 0, _ => "..."
  | k + 1, .closure c => "Closure(" ++ closureDump (s.dumpWithin k) (s.closure c) ++ ")"
  | k + 1, .pair p =>
    "Pair(Pair \x7b " ++ slotDump "first" (s.dumpWithin k (s.first p)) ++ ", " ++
      slotDump "second" (s.dumpWithin k (s.second p)) ++ " \x7d)"

def procedureDump? (s : Store) : Value → Option String
  | .builtin b => some b.dump
  | .closure c =>
    some (closureDump (s.dumpWithin (s.pairs.size + s.closures.size + 1)) (s.closure c))
  | _ => none

end Store

end MiniScheme
