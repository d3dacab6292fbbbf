import MiniScheme.Builtin.Basic

namespace MiniScheme

/-- Where a pair, a closure or a scope is kept. -/
abbrev Address := Nat

/-- Values without slots. A closure is known by its address only. -/
inductive Atom
  | nil
  | integer (n : Int64)
  | symbol (name : String)
  | builtin (b : Builtin)
  | closure (address : Address)
  deriving DecidableEq, Repr

/-- Trees of atoms: what can be written down without sharing. -/
inductive Datum
  | atom (a : Atom)
  | cons (first second : Datum)
  deriving DecidableEq, Repr

namespace Datum

@[match_pattern] abbrev nil : Datum := atom .nil

@[match_pattern] abbrev integer (n : Int64) : Datum := atom (.integer n)

@[match_pattern] abbrev symbol (name : String) : Datum := atom (.symbol name)

/-- The elements in a chain that ends in the given tail. -/
def ofList (elements : List Datum) (tail : Datum) : Datum := elements.foldr cons tail

def quoted (datum : Datum) : Datum := ofList [symbol "quote", datum] nil

end Datum

end MiniScheme
