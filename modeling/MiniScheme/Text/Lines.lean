import MiniScheme.Text.Blank

namespace MiniScheme.Text

/-- The lines of a text without their ends; a line feed ends a line, together with a carriage
return right before it. What follows the last line feed is a line unless it is empty. -/
def splitLines : List Char → List (List Char)
  | [] => []
  | '\n' :: rest => [] :: splitLines rest
  | '\r' :: '\n' :: rest => [] :: splitLines rest
  | c :: rest =>
    match splitLines rest with
    | [] => [[c]]
    | line :: others => (c :: line) :: others

def lines (text : String) : List String := (splitLines text.toList).map String.ofList

def isBlankLine (line : String) : Bool := line.toList.all isBlank

end MiniScheme.Text
