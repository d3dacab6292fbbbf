import MiniScheme.Session.Script

namespace MiniScheme

inductive Command
  | interactive
  | script (path : String)
  deriving DecidableEq, Repr

namespace Command

inductive Failure
  | missingFile
  | unreadableFile (reason : String)
  | notText
  | tooManyFiles (count : Nat)
  deriving DecidableEq, Repr

def Failure.message : Failure → String
  | missingFile => "io error: No such file or directory (os error 2)"
  | unreadableFile reason => "io error: " ++ reason
  | notText => "io error: stream did not contain valid UTF-8"
  | tooManyFiles count => "expected at most one source file, got " ++ toString count

/-- The command for the arguments of the program: at most one file is run. -/
def ofArguments : List String → Except Failure Command
  | [] => .ok interactive
  | [path] => .ok (script path)
  | arguments => .error (.tooManyFiles arguments.length)

def decode (bytes : ByteArray) : Except Failure String :=
  match String.fromUTF8? bytes with
  | some text => .ok text
  | none => .error .notText

end Command

end MiniScheme
