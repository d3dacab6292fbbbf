import MiniScheme.Token.Basic

namespace MiniScheme

namespace Lexeme

def isSign (c : Char) : Bool := c == '+' || c == '-'

def isSymbolStart (c : Char) : Bool :=
  c.isAlpha || c == '<' || c == '=' || c == '>' || c == '*' || c == '/' || c == '#'

def isSymbolInner (c : Char) : Bool :=
  isSymbolStart c || c.isDigit || c == '?' || c == '!' || c == '-'

/-- The first lexeme of a text that starts with one, as long as it can be, and the text after it. -/
def split? : List Char → Option (List Char × List Char)
  | [] => none
  | c :: rest =>
    if (Punctuation.ofChar? c).isSome then some ([c], rest)
    else if c.isDigit || isSign c then
      some (c :: rest.takeWhile Char.isDigit, rest.dropWhile Char.isDigit)
    else if isSymbolStart c then
      some (c :: rest.takeWhile isSymbolInner, rest.dropWhile isSymbolInner)
    else none

theorem append_of_split?_eq_some {text lexeme rest : List Char}
    (h : split? text = some (lexeme, rest)) : lexeme ++ rest = text := by
  cases text <;> grind [split?, List.takeWhile_append_dropWhile]

theorem ne_nil_of_split?_eq_some {text lexeme rest : List Char}
    (h : split? text = some (lexeme, rest)) : lexeme ≠ [] := by
  cases text <;> grind [split?]

theorem length_lt_of_split?_eq_some {text lexeme rest : List Char}
    (h : split? text = some (lexeme, rest)) : rest.length < text.length := by
  have hl := List.length_pos_iff.2 (ne_nil_of_split?_eq_some h)
  rw [← append_of_split?_eq_some h, List.length_append]
  omega

def digitValue (c : Char) : Int64 := .ofNat (c.toNat - '0'.toNat)

/-- The value of a run of digits, wrapping at the word size. -/
def digitsValue (digits : List Char) : Int64 :=
  digits.foldl (fun value c ↦ value * 10 + digitValue c) 0

def constantValue : List Char → Int64
  | '-' :: digits => -digitsValue digits
  | '+' :: digits => digitsValue digits
  | digits => digitsValue digits

/-- A lexeme is a constant if its first character, leaving out a sign, is a digit. -/
def isConstant : List Char → Bool
  | [] => false
  | [c] => c.isDigit
  | c :: d :: _ => c.isDigit || (isSign c && d.isDigit)

end Lexeme

def Token.ofLexeme (lexeme : List Char) : Token :=
  match lexeme.head?.bind Punctuation.ofChar? with
  | some p => .punctuation p
  | none =>
    if Lexeme.isConstant lexeme then .constant (Lexeme.constantValue lexeme)
    else .symbol (String.ofList lexeme)

end MiniScheme
