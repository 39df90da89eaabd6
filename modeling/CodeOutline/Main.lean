import CodeOutline.CommandLine.Run
import CodeOutline.Execution.Sandbox
import CodeOutline.Protocol.Session

namespace CodeOutline.CommandLine

def readFile? (path : String) : IO (Option String) := do
  try
    return some (← IO.FS.readFile path)
  catch _ => return none

/-- Answers line by line until a line asks to shut down or the input ends. -/
partial def serve (service : Service) (input output : IO.FS.Stream) : IO Unit := do
  let line ← input.getLine
  if line.isEmpty then return
  output.putStr (Session.reply service line)
  output.flush
  unless Session.endsWith (Text.trim line) do serve service input output

def fail (message : String) : IO UInt32 := do
  IO.eprintln ("Error: " ++ message)
  return 1

end CodeOutline.CommandLine

open CodeOutline CommandLine

def main (arguments : List String) : IO UInt32 := do
  let files ← (paths arguments).mapM fun path => return (path, ← readFile? path)
  let port ← IO.getEnv "PORT"
  let surroundings : Surroundings :=
    ⟨fun path => (files.lookup path).join, port, Sandbox.execute []⟩
  match run surroundings arguments with
  | .print text =>
    IO.println text
    return 0
  | .write path content =>
    try
      IO.FS.writeFile path content
      return 0
    catch _ => CommandLine.fail (writeFailure path)
  | .listen _ service =>
    CommandLine.serve service (← IO.getStdin) (← IO.getStdout)
    return 0
  | .fail message => CommandLine.fail message
  | .stop status => return status.toUInt32
