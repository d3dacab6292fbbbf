import MiniScheme.Proofs.Text.Unbroken
import MiniScheme.Text.Lines
import Mathlib.Data.List.DropRight

namespace MiniScheme.Text

variable {line text blanks : List Char} {c : Char}

/-- What stands in the lines of a text, without blanks at their ends. Blank lines are left out. -/
def contents (text : List Char) : List (List Char) :=
  ((splitLines text).map (List.rdropWhile isBlank)).filter (!·.isEmpty)

end MiniScheme.Text
