import MiniScheme.CommandLine

namespace MiniScheme

def readFile (path : String) : IO (Except Command.Failure ByteArray) := do
  try
    return .ok (← IO.FS.readBinFile path)
  catch
    | .noFileOrDirectory .. => return .error .missingFile
    | e => return .error (.unreadableFile (toString e))

def runFile (path : String) : IO UInt32 := do
  match (← readFile path) >>= Command.decode with
  | .error failure =>
    IO.eprintln failure.message
    return 1
  | .ok text =>
    match Script.output .new Session.depthLimit text with
    | .ok output =>
      IO.print output
      return 0
    | .error halt =>
      IO.eprintln halt.message
      return 1

partial def interact (session : Session) : IO UInt32 := do
  let stdout ← IO.getStdout
  stdout.putStr "scheme> "
  stdout.flush
  let line ← (← IO.getStdin).getLine
  if line.isEmpty then return 0
  match session.respond Session.depthLimit line with
  | .ok (response, session) =>
    if let some text := response then IO.println text
    interact session
  | .error halt =>
    IO.eprintln halt.message
    interact session

end MiniScheme

open MiniScheme in
def main (arguments : List String) : IO UInt32 := do
  match Command.ofArguments arguments with
  | .ok .interactive => interact .new
  | .ok (.script path) => runFile path
  | .error failure =>
    IO.eprintln failure.message
    return 1
