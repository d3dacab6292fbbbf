import MiniScheme.Datum.Basic
import MiniScheme.Token.Lexer

namespace MiniScheme

inductive ReadError
  | lexical (e : LexError)
  | endOfInput
  | unclosedList
  | unexpectedCloseBracket
  | unexpectedDot
  | danglingQuote
  | badDottedPair
  | trailingInput (token : Token)
  deriving DecidableEq, Repr

def ReadError.message : ReadError → String
  | lexical e => "tokenizer failed: " ++ e.message
  | endOfInput => "read error: unexpected end of input"
  | unclosedList => "read error: unclosed list"
  | unexpectedCloseBracket => "read error: unexpected ')'"
  | unexpectedDot => "read error: unexpected '.'"
  | danglingQuote => "read error: quote with nothing to quote"
  | badDottedPair => "read error: '.' must be followed by exactly one datum and ')'"
  | trailingInput token => "read error: unconsumed input from " ++ token.describe

/-- What comes of reading from a lexer of size `n`. Either way the lexer is left where reading
stopped, and a datum takes at least one token. -/
inductive Reading (n : Nat)
  | done (datum : Datum) (lexer : Lexer) (shorter : lexer.size < n)
  | failed (e : ReadError) (lexer : Lexer)

namespace Reading

/-- The reading of a lexer, after some tokens before it, with its datum put in a larger one. -/
def extend {m n : Nat} (h : m < n) (f : Datum → Datum) : Reading m → Reading n
  | done datum lexer shorter => .done (f datum) lexer (Nat.lt_trans shorter h)
  | failed e lexer => .failed e lexer

end Reading

namespace Datum

mutual

/-- Reads one datum and leaves the lexer on the token after it. -/
def read (lexer : Lexer) : Reading lexer.size :=
  match hc : lexer.current with
  | none => .failed .endOfInput lexer
  | some token =>
    match h : lexer.advance with
    | .error e => .failed (.lexical e) lexer
    | .ok next =>
      have shorter := Lexer.size_lt_of_advance hc h
      match token with
      | .punctuation .openBracket => (readChain true next).extend shorter id
      | .punctuation .closeBracket => .failed .unexpectedCloseBracket next
      | .punctuation .dot => .failed .unexpectedDot next
      | .punctuation .quote =>
        match next.current with
        | none => .failed .danglingQuote next
        | some (.punctuation .closeBracket) => .failed .danglingQuote next
        | some _ => (read next).extend shorter quoted
      | .symbol name => .done (symbol name) next shorter
      | .constant value => .done (integer value) next shorter
termination_by (lexer.size, 0)

/-- Reads the elements of a list up to the closing bracket, with a tail after a dot if there is
one. A dot needs an element before it. -/
def readChain (atStart : Bool) (lexer : Lexer) : Reading lexer.size :=
  match hc : lexer.current with
  | none => .failed .unclosedList lexer
  | some (.punctuation .closeBracket) =>
    match h : lexer.advance with
    | .error e => .failed (.lexical e) lexer
    | .ok next => .done nil next (Lexer.size_lt_of_advance hc h)
  | some (.punctuation .dot) =>
    if atStart then .failed .unexpectedDot lexer
    else
      match h : lexer.advance with
      | .error e => .failed (.lexical e) lexer
      | .ok next =>
        have shorter := Lexer.size_lt_of_advance hc h
        match read next with
        | .failed e rest => .failed e rest
        | .done tail rest shorter' =>
          match hc' : rest.current with
          | some (.punctuation .closeBracket) =>
            match h' : rest.advance with
            | .error e => .failed (.lexical e) rest
            | .ok last =>
              .done tail last <| Nat.lt_trans (Lexer.size_lt_of_advance hc' h')
                (Nat.lt_trans shorter' shorter)
          | _ => .failed .badDottedPair rest
  | some _ =>
    match read lexer with
    | .failed e rest => .failed e rest
    | .done first rest shorter => (readChain false rest).extend shorter (cons first)
termination_by (lexer.size, 1)

end

/-- The one datum that a text holds. -/
def ofText (text : String) : Except ReadError Datum :=
  match Lexer.ofText text.toList with
  | .error e => .error (.lexical e)
  | .ok lexer =>
    match read lexer with
    | .failed e _ => .error e
    | .done datum rest _ =>
      match rest.current with
      | none => .ok datum
      | some token => .error (.trailingInput token)

end Datum

end MiniScheme
