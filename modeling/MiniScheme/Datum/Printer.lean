import MiniScheme.Datum.Basic

namespace MiniScheme

/-- The written form of an atom, given the parameter names of the closures. -/
def Atom.text (parameters : Address → List String) : Atom → String
  | nil => "()"
  | integer n => toString n.toInt
  | symbol name => name
  | builtin b => "#<primitive " ++ b.name ++ ">"
  | closure a => "#<lambda (" ++ " ".intercalate (parameters a) ++ ")>"

namespace Datum

mutual

/-- The written form of a datum, with chains of pairs in list notation. -/
def text (parameters : Address → List String) : Datum → String
  | atom a => a.text parameters
  | cons first second => "(" ++ first.text parameters ++ second.tailText parameters

/-- What follows the first element of a list whose remaining chain is the datum. -/
def tailText (parameters : Address → List String) : Datum → String
  | nil => ")"
  | atom a => " . " ++ a.text parameters ++ ")"
  | cons first second => " " ++ first.text parameters ++ second.tailText parameters

end

/-- The tree of a datum without list notation, symbols between bars. -/
def dottedText : Datum → String
  | symbol name => "|" ++ name ++ "|"
  | atom a => a.text fun _ ↦ []
  | cons first second => "(" ++ first.dottedText ++ " . " ++ second.dottedText ++ ")"

end Datum

end MiniScheme
