import MiniScheme.Session.Basic

namespace MiniScheme.Screen

def columns : Nat := 400

/-- The number of rows of the screen, the empty one below the last prompt included. -/
def height : Nat := 200

/-- The rows that a text takes. A text that fills its last row leaves an empty one below. -/
def wrap (text : List Char) : List (List Char) :=
  if columns ≤ text.length then text.take columns :: wrap (text.drop columns) else [text]
termination_by text.length
decreasing_by
  rw [List.length_drop]
  have : 0 < columns := by decide
  omega

def trimRight (row : List Char) : String :=
  String.ofList (row.reverse.dropWhile (· == ' ')).reverse

def rowsOfText (text : String) : List String := (wrap text.toList).map trimRight

/-- The rows that a line leaves on the screen: the line behind the prompt, and the response. -/
def rowsOf (prompt line : String) (response : Option String) : List String :=
  ((prompt ++ line) :: response.toList).flatMap rowsOfText

/-- The last rows: those above have left the screen. -/
def scroll (rows : List String) : List String := rows.drop (rows.length + 1 - height)

/-- The rows on the screen after the given lines, with the prompt for the next one. -/
def rows (session : Session) (depth : Nat) (prompt : String) (lines : List String) :
    Except Halt (List String) := do
  let (responses, _) ← session.respondAll depth lines
  let shown := (lines.zip responses).flatMap fun (line, response) ↦ rowsOf prompt line response
  return scroll (shown ++ rowsOfText prompt)

/-- The lines to be recalled later: of equal lines in a row only one. -/
def history : List String → List String
  | line :: next :: rest =>
    if line = next then history (next :: rest) else line :: history (next :: rest)
  | lines => lines

def historyText (lines : List String) : String := String.join ((history lines).map (· ++ "\n"))

end MiniScheme.Screen
