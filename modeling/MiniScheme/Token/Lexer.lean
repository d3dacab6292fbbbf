import MiniScheme.Text.Blank
import MiniScheme.Text.Quoted
import MiniScheme.Token.Lexeme

namespace MiniScheme

inductive LexError
  | unexpectedCharacter (c : Char)
  deriving DecidableEq, Repr

def LexError.message : LexError → String
  | unexpectedCharacter c => "unexpected character " ++ Text.quoteChar c

/-- A text on its way into tokens: the token in view, and the text after it. -/
structure Lexer where
  current : Option Token
  rest : List Char

namespace Lexer

def atEnd (lexer : Lexer) : Bool := lexer.current.isNone

/-- Skips blanks and brings the next token into view, or none at the end of the text. -/
def advance (lexer : Lexer) : Except LexError Lexer :=
  match lexer.rest.dropWhile Text.isBlank with
  | [] => .ok ⟨none, []⟩
  | c :: text =>
    match Lexeme.split? (c :: text) with
    | some (lexeme, rest) => .ok ⟨some (.ofLexeme lexeme), rest⟩
    | none => .error (.unexpectedCharacter c)

def ofText (text : List Char) : Except LexError Lexer := advance ⟨none, text⟩

/-- An upper bound on the number of tokens left. -/
def size (lexer : Lexer) : Nat := lexer.rest.length + lexer.current.toList.length

theorem size_le_of_advance {lexer next : Lexer} (h : lexer.advance = .ok next) :
    next.size ≤ lexer.rest.length := by
  have hd : (lexer.rest.dropWhile Text.isBlank).length ≤ lexer.rest.length :=
    (List.dropWhile_sublist _).length_le
  rw [advance] at h
  split at h
  · cases h
    simp [size]
  · next c text hc =>
    rw [hc] at hd
    split at h
    · next lexeme rest hs =>
      cases h
      have := Lexeme.length_lt_of_split?_eq_some hs
      simp only [size, Option.toList_some, List.length_singleton]
      omega
    · cases h

theorem size_lt_of_advance {lexer next : Lexer} {token : Token}
    (hc : lexer.current = some token) (h : lexer.advance = .ok next) : next.size < lexer.size := by
  have := size_le_of_advance h
  simp only [size, hc, Option.toList_some, List.length_singleton] at this ⊢
  omega

def tokens (lexer : Lexer) : Except LexError (List Token) :=
  match _hc : lexer.current with
  | none => .ok []
  | some token =>
    match _h : lexer.advance with
    | .error e => .error e
    | .ok next => next.tokens.map (token :: ·)
termination_by lexer.size
decreasing_by exact size_lt_of_advance ‹_› ‹_›

end Lexer

def tokenize (text : String) : Except LexError (List Token) :=
  (Lexer.ofText text.toList).bind Lexer.tokens

end MiniScheme
