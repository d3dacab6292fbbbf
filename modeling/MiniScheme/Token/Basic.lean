namespace MiniScheme

inductive Punctuation
  | openBracket
  | closeBracket
  | quote
  | dot
  deriving DecidableEq, Repr

namespace Punctuation

def char : Punctuation → Char
  | openBracket => '('
  | closeBracket => ')'
  | quote => '\x27'
  | dot => '.'

def ofChar? (c : Char) : Option Punctuation :=
  if c = '(' then some openBracket
  else if c = ')' then some closeBracket
  else if c = '\x27' then some quote
  else if c = '.' then some dot
  else none

theorem ofChar?_eq_some_iff {c : Char} {p : Punctuation} : ofChar? c = some p ↔ c = p.char := by
  constructor
  · grind [ofChar?, char]
  · rintro rfl
    cases p <;> rfl

end Punctuation

/-- The words of the language. Constants are machine integers of 64 bits. -/
inductive Token
  | punctuation (p : Punctuation)
  | symbol (name : String)
  | constant (value : Int64)
  deriving DecidableEq, Repr

def Token.describe : Token → String
  | punctuation p => "'" ++ p.char.toString ++ "'"
  | symbol name => "symbol " ++ name
  | constant value => "constant " ++ toString value.toInt

end MiniScheme
