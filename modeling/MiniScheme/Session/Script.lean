import MiniScheme.Session.Basic

namespace MiniScheme.Script

/-- What a script prints: a line for each of its lines that is not blank. -/
def output (session : Session) (depth : Nat) (text : String) : Except Halt String := do
  let (responses, _) ← session.respondAll depth (Text.lines text)
  return String.join ((responses.filterMap id).map (· ++ "\n"))

end MiniScheme.Script
