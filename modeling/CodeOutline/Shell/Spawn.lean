import CodeOutline.Execution.Command
import CodeOutline.Shell.Evaluate

namespace CodeOutline.Shell

/-- The variables that a command is started with. -/
abbrev Variables := List (String × String)

def searchPath : String × String :=
  ("PATH", "/usr/local/sbin:/usr/local/bin:/usr/sbin:/usr/bin:/sbin:/bin")

def standardVariables : Variables := [searchPath, ("HOME", "/root")]

/-- The state in which a command starts. -/
def State.initial (world : World) (environment : Variables) (output errors : String) : State where
  world := world
  name := []
  arguments := []
  bindings := environment.map fun (name, value) => (name, Text.octets value)
  exported := environment.map Prod.fst
  locals := []
  functions := []
  status := 0
  line := 1
  descriptors := [(1, .file output), (2, .file errors)]
  input := []
  outputs := []
  exitsOnError := false
  tests := 0
  traps := []
  backgroundEnd := 0
  backgroundStatus := none

/-- What a command runs, unless it cannot be started. -/
def resolve (world : World) (command : Command) : Except SpawnError (Run Unit) :=
  let runScript := runScript deepestRun
  let name := Text.octets command.program
  let arguments := command.arguments.map Text.octets
  let found (program : Option (List Octets → Run Unit)) : Except SpawnError (Run Unit) :=
    match program with
    | some run => .ok (run arguments)
    | none => .error .notFound
  if name.contains '/' then
    match world.file? (localPath name) with
    | some file =>
      if !file.executable then .error .permissionDenied
      else if (interpreter? file.content).isNone then
        .error (.other "Exec format error (os error 8)")
      else
        match runFile? runScript name file.content arguments with
        | some run => .ok run
        | none => .error .notFound
    | none =>
      if isDirectory (localPath name) then .error .permissionDenied
      else found (programAt? runScript name)
  else found (program? runScript command.program)

def ending (result : Except Stop Unit) (state : State) : Ending :=
  match result with
  | .error (.signal _) => .signalled
  | .error .timeout => .timedOut
  | _ => .exited state.status

/-- Starts a command and waits for it, but no longer than so many milliseconds. -/
def spawn (world : World) (environment : Variables) (label : String) (timeout : Nat)
    (command : Command) : Attempt × World :=
  let output := label ++ ".stdout"
  let errors := label ++ ".stderr"
  if !isDirectory (localPath (Utility.dirName (Text.octets output))) then (.error .notFound, world)
  else
    let world := (world.put output (.ofOctets [])).put errors (.ofOctets [])
    let world := { world with clock := 0, deadline := timeout, steps := World.stepLimit }
    match resolve world command with
    | .error error => (.error error, world)
    | .ok run =>
      if timeout = 0 then (.ok ⟨.timedOut, "", ""⟩, world)
      else
        let (result, state) := run.run.run (.initial world environment output errors)
        let read (path : String) : Option String :=
          (state.world.file? path).map fun file => Text.ofOctets file.content
        match read output, read errors with
        | some output, some errors => (.ok ⟨ending result state, output, errors⟩, state.world)
        | _, _ => (.error .notFound, state.world)

end CodeOutline.Shell
