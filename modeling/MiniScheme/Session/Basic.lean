import MiniScheme.Eval.Basic
import MiniScheme.Text.Lines

namespace MiniScheme

/-- What is said to one line: a written value or an error, and the events on the way. -/
structure Reply where
  answer : Except Error String
  log : List Event

def Reply.text (reply : Reply) : String :=
  match reply.answer with
  | .ok text => text
  | .error e => e.describe

/-- A store, and the scope in which lines are evaluated. -/
structure Session where
  store : Store
  global : Address

namespace Session

/-- How deeply evaluations are nested at most, when no other limit is given. -/
def depthLimit : Nat := 1000000

def new : Session :=
  let (global, store) := Store.empty.newGlobal
  ⟨store, global⟩

/-- Evaluates a line. After an error the session goes on with what has been done before it. -/
def run (session : Session) (depth : Nat) (verbosity : Verbosity) (line : String) :
    Except Halt (Reply × Session) := do
  let run ← Eval.answerText depth line session.global verbosity session.store
  return (⟨run.result, run.log⟩, { session with store := run.store })

def runAll (session : Session) (depth : Nat) (verbosity : Verbosity) :
    List String → Except Halt (List Reply × Session)
  | [] => .ok ([], session)
  | line :: lines => do
    let (reply, session) ← session.run depth verbosity line
    let (replies, session) ← session.runAll depth verbosity lines
    return (reply :: replies, session)

/-- The text shown for a line. A blank line has none. -/
def respond (session : Session) (depth : Nat) (line : String) :
    Except Halt (Option String × Session) :=
  if Text.isBlankLine line then .ok (none, session)
  else do
    let (reply, session) ← session.run depth .silent line
    return (some reply.text, session)

def respondAll (session : Session) (depth : Nat) :
    List String → Except Halt (List (Option String) × Session)
  | [] => .ok ([], session)
  | line :: lines => do
    let (response, session) ← session.respond depth line
    let (responses, session) ← session.respondAll depth lines
    return (response :: responses, session)

end Session

end MiniScheme
