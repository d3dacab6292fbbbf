import MiniScheme.Datum.Reader

namespace MiniScheme

inductive LexerStep
  | peek
  | atEnd
  | advance
  | read
  deriving DecidableEq, Repr

inductive LexerReply
  | token (current : Option Token)
  | flag (answer : Bool)
  | datum (d : Datum)
  | failed (e : ReadError)
  deriving DecidableEq, Repr

namespace Lexer

/-- The reply to a step, and the lexer afterwards. A failed advance leaves the lexer as it is. -/
def perform (lexer : Lexer) : LexerStep → LexerReply × Lexer
  | .peek => (.token lexer.current, lexer)
  | .atEnd => (.flag lexer.atEnd, lexer)
  | .advance =>
    match lexer.advance with
    | .ok next => (.token next.current, next)
    | .error e => (.failed (.lexical e), lexer)
  | .read =>
    match Datum.read lexer with
    | .done datum next _ => (.datum datum, next)
    | .failed e next => (.failed e, next)

def replies (lexer : Lexer) : List LexerStep → List LexerReply
  | [] => []
  | step :: steps =>
    let (reply, next) := lexer.perform step
    reply :: next.replies steps

theorem replies_cons (lexer : Lexer) (step : LexerStep) (steps : List LexerStep) :
    lexer.replies (step :: steps) =
      (lexer.perform step).1 :: (lexer.perform step).2.replies steps := rfl

end Lexer

end MiniScheme
