import CodeOutline.Shell.Parser
import CodeOutline.Shell.Utility

namespace CodeOutline.Shell

open Run

/-- Carries out a step as long as it asks for more. -/
def repeatWhile (step : State → Except Stop Bool × State) : Nat → State → Except Stop Unit × State
  | 0, state => (.error .timeout, state)
  | limit + 1, state =>
    match step state with
    | (.ok true, state) => repeatWhile step limit state
    | (.ok false, state) => (.ok (), state)
    | (.error stop, state) => (.error stop, state)

/-- Puts back what a run changes outside of its time, also if it stops. -/
def guarded (restore : Run Unit) (body : Run Unit) : Run Unit := do
  tryCatch body fun stop => do
    restore
    throw stop
  restore

/-- Runs one round of a loop. Tells whether the loop goes on. -/
def oneRound (body : Run Unit) : Run Bool :=
  tryCatch (do body; return true) fun stop => do
    match stop with
    | .leave (loops + 2) => throw (.leave (loops + 1))
    | .again (loops + 2) => throw (.again (loops + 1))
    | .leave _ => return false
    | .again _ => return true
    | stop => throw stop

/-- Runs with commands that may fail. -/
def tested (body : Run Unit) : Run Unit := do
  let count (change : Nat → Nat) : Run Unit :=
    modify fun state => { state with tests := change state.tests }
  count (· + 1)
  guarded (count (· - 1)) body

/-- Ends the script if a command has failed and that is wanted. -/
def checkFailure : Run Unit := do
  let state ← get
  if state.exitsOnError && state.tests = 0 && state.status ≠ 0 then throw .exit

section

variable (runScript : Octets → Run Unit)

/-- The sink of a file that is opened for writing. -/
def openSink? (mode : OpenMode) (path : Octets) : Run (Option Sink) := do
  let name := localPath path
  if name = "/dev/null" then return some .nowhere
  if name = "/dev/stderr" then return ← sink 2
  if name = "/dev/stdout" then return ← sink 1
  if isDirectory name || name.isEmpty then
    complain ("cannot create " ++ String.ofList path ++ ": Is a directory")
    return none
  let parent := Utility.dirName path
  if (localPath path).toList.contains '/' && !isDirectory (String.ofList parent) then
    complain ("cannot create " ++ String.ofList path ++ ": Directory nonexistent")
    return none
  if mode = .write then
    let executable := ((← get).world.file? name).any File.executable
    changeWorld fun world => world.put name ⟨[], executable⟩
  else changeWorld fun world => world.append name []
  return some (.file name)

def setInput (text : Octets) : Run Unit :=
  modify fun state => { state with input := text }

/-- Carries out a redirection, and tells whether that was possible. -/
def redirect (redirection : Redirection) : Run Bool := do
  match redirection with
  | .document _ body =>
    setInput (← Expansion.expandText runScript body)
    return true
  | .duplicate descriptor target =>
    let text ← Expansion.expandText runScript target
    if text = ['-'] then
      bind descriptor .nowhere
      return true
    match Utility.natural? text with
    | some source =>
      if let some found ← sink source then bind descriptor found
      return true
    | none =>
      match ← openSink? .write text with
      | some found =>
        bind 1 found
        bind 2 found
        return true
      | none => return false
  | .file _ .read target =>
    let path ← Expansion.expandText runScript target
    match (← get).world.file? (localPath path) with
    | some file =>
      setInput file.content
      return true
    | none =>
      if localPath path = "/dev/null" then
        setInput []
        return true
      complain ("cannot open " ++ String.ofList path ++ ": No such file")
      return false
  | .file descriptor mode target =>
    match ← openSink? mode (← Expansion.expandText runScript target) with
    | some found =>
      bind descriptor found
      return true
    | none => return false

def redirectAll : List Redirection → Run Bool
  | [] => return true
  | redirection :: others => do
    if ← redirect runScript redirection then redirectAll others else return false

def readsInput : Redirection → Bool
  | .document _ _ | .file _ .read _ => true
  | _ => false

/-- Runs with redirections that hold meanwhile. -/
def withRedirections (redirections : List Redirection) (body : Run Unit) : Run Unit := do
  let before ← get
  let restore : Run Unit := modify fun state => { state with
    descriptors := before.descriptors
    input := if redirections.any readsInput then before.input else state.input }
  guarded restore do
    if ← redirectAll runScript redirections then body else setStatus 2

end

/-- What a process does at its end. -/
def leaveProcess (runScript : Octets → Run Unit) : Run Unit := do
  match (← get).traps.lookup "0" with
  | some action =>
    modify fun state => { state with traps := [] }
    let status := (← get).status
    tryCatch (do runScript action; setStatus status) fun stop =>
      match stop with
      | .exit => return
      | stop => throw stop
  | none => return

/-- Runs a process to its end. -/
def process (runScript : Octets → Run Unit) (body : Run Unit) : Run Unit := do
  tryCatch body fun stop =>
    match stop with
    | .signal _ | .timeout => throw stop
    | _ => return
  leaveProcess runScript

/-- Runs a process from its start, which sees the exported variables only. -/
def asProcess (runScript : Octets → Run Unit) (name : Octets) (arguments : List Octets)
    (body : Run Unit) : Run Unit := do
  modify fun state => { state with
    name := name
    arguments := arguments
    bindings := state.bindings.filter fun entry => state.exported.contains entry.1
    functions := []
    locals := []
    status := 0
    line := 1
    exitsOnError := false
    tests := 0
    traps := [] }
  process runScript body

/-- Runs a process and waits for it. A signal that ends it is told, and shows in the status. -/
def child (body : Run Unit) : Run Unit :=
  tryCatch (isolated body) fun stop => do
    match stop with
    | .signal number =>
      setStatus (128 + number)
      unless (Signal.notice number).isEmpty do
        write 2 (Signal.notice number ++ "\n").toList
    | stop => throw stop

/-- How the shell was called. -/
structure Call where
  script : Option Octets
  /-- The path of a script. -/
  file : Option Octets
  name : Octets
  arguments : List Octets
  exitsOnError : Bool

def shellFlags : List Char := ['c', 'e', 'u', 'x', 's', 'i', 'f', 'v', 'a', 'n']

/-- Reads the arguments of the shell; the first flag that it does not know is an error. -/
def readCall (name : Octets) (inline exitsOnError : Bool) : List Octets → Except Char Call
  | [] => .ok ⟨none, none, name, [], exitsOnError⟩
  | argument :: others =>
    let finish (others : List Octets) : Except Char Call :=
      match inline, others with
      | true, script :: others =>
        .ok ⟨some script, none, others.headD name, others.tail, exitsOnError⟩
      | false, path :: others => .ok ⟨none, some path, path, others, exitsOnError⟩
      | _, [] => .ok ⟨none, none, name, [], exitsOnError⟩
    match argument with
    | ['-'] | ['-', '-'] => finish others
    | '-' :: letters =>
      match letters.find? fun letter => !shellFlags.contains letter with
      | some letter => .error letter
      | none =>
        readCall name (inline || letters.contains 'c') (exitsOnError || letters.contains 'e') others
    | _ => finish (argument :: others)

/-- Runs the shell as a program. -/
def shell (runScript : Octets → Run Unit) (name : Octets) (arguments : List Octets) : Run Unit := do
  let fail (message : String) : Run Unit := do
    write 2 (name ++ ": 0: ".toList ++ message.toList ++ ['\n'])
    setStatus 2
  match readCall name false false arguments with
  | .error letter => fail ("Illegal option -" ++ String.ofList [letter])
  | .ok call =>
    let run (script : Octets) : Run Unit :=
      asProcess runScript call.name call.arguments do
        assign "PWD" directory.toList
        modify fun state => { state with
          exported := "PWD" :: state.exported
          exitsOnError := call.exitsOnError }
        runScript script
    match call.script, call.file with
    | some script, _ => run script
    | none, none =>
      let script := (← get).input
      setInput []
      run script
    | none, some path =>
      match (← get).world.file? (localPath path) with
      | some file => run file.content
      | none => fail ("cannot open " ++ String.ofList path ++ ": No such file")

def shellNames : List String := ["sh", "dash", "bash"]

/-- A program by the last name of its path. -/
def program? (runScript : Octets → Run Unit) (name : String) : Option (List Octets → Run Unit) :=
  if shellNames.contains name then some (shell runScript name.toList)
  else
    (Utility.find? name).map fun run arguments =>
      asProcess runScript name.toList arguments (run arguments)

/-- The interpreter that the first line of a script names, and its argument. -/
def interpreter? (content : Octets) : Option (Octets × List Octets) :=
  (Text.strip? ['#', '!'] content).map fun rest =>
    let line := (rest.takeWhile (· ≠ '\n')).dropWhile fun c => c = ' ' || c = '\t'
    let path := line.takeWhile fun c => c ≠ ' ' && c ≠ '\t'
    let argument := (line.drop path.length).dropWhile fun c => c = ' ' || c = '\t'
    let argument := (argument.reverse.dropWhile fun c => c = ' ' || c = '\t').reverse
    (path, if argument.isEmpty then [] else [argument])

/-- The program that stands at an absolute path. -/
def programAt? (runScript : Octets → Run Unit) (path : Octets) : Option (List Octets → Run Unit) :=
  let directories := ["/bin", "/usr/bin"]
  if directories.contains (String.ofList (Utility.dirName path)) then
    program? runScript (String.ofList (Utility.baseName path []))
  else none

/-- Runs a file with the interpreter that it names, if there is one. -/
def runFile? (runScript : Octets → Run Unit) (path : Octets) (content : Octets)
    (arguments : List Octets) : Option (Run Unit) :=
  match interpreter? content with
  | none => none
  | some (interpreter, argument) =>
    let found := match Utility.baseName interpreter [], argument with
      | ['e', 'n', 'v'], [name] => (program? runScript (String.ofList name)).map (·, [])
      | _, argument => (programAt? runScript interpreter).map (·, argument)
    found.map fun (run, argument) => run (argument ++ path :: arguments)

/-- Runs a program by its path or its name; messages about it begin with the given text. -/
def runProgram (runScript : Octets → Run Unit) (context : String) (name : Octets)
    (arguments : List Octets) : Run Unit := do
  let missing : Run Unit := do
    complain (context ++ String.ofList name ++ ": not found")
    setStatus 127
  let denied : Run Unit := do
    complain (context ++ String.ofList name ++ ": Permission denied")
    setStatus 126
  if name.contains '/' then
    match (← get).world.file? (localPath name) with
    | some file =>
      if !file.executable then denied
      else if (interpreter? file.content).isNone then
        child (asProcess runScript name arguments (runScript file.content))
      else
        match runFile? runScript name file.content arguments with
        | some run => child run
        | none => missing
    | none =>
      match programAt? runScript name with
      | some run => child (run arguments)
      | none =>
        if isDirectory (localPath name) then denied else missing
  else
    match program? runScript (String.ofList name) with
    | some run => child (run arguments)
    | none => missing

section

variable (runScript : Octets → Run Unit)

/-- A number that a builtin takes as its only argument. -/
def numberArgument (name : String) (fallback : Nat) (arguments : List Octets) : Run Nat := do
  match arguments with
  | [] => return fallback
  | argument :: _ =>
    match Utility.natural? argument with
    | some number => return number
    | none => abort (name ++ ": Illegal number: " ++ String.ofList argument)

def assignWord (name : String) (argument : Octets) : Run String := do
  let variableName := argument.takeWhile (· ≠ '=')
  let key := String.ofList variableName
  if argument.length ≠ variableName.length then
    assign key (argument.drop (variableName.length + 1))
  unless variableName.head?.any isNameStart && variableName.all isNamePart do
    let _ : Unit ← abort (name ++ ": " ++ String.ofList argument ++ ": bad variable name")
  return key

/-- Splits a line into as many fields as there are names, the last of which takes the rest. -/
def assignFields (separators : Octets) : List Octets → Octets → Run Unit
  | [], _ => return
  | [name], text => assign (String.ofList name) (text.reverse.dropWhile separators.contains).reverse
  | name :: names, text => do
    assign (String.ofList name) (text.takeWhile (!separators.contains ·))
    assignFields separators names
      ((text.dropWhile (!separators.contains ·)).dropWhile separators.contains)

def readLine (arguments : List Octets) : Run Unit := do
  let raw := arguments.head? = some ['-', 'r']
  let names := arguments.filter fun argument => argument.head? ≠ some '-'
  let input := (← get).input
  let line := input.takeWhile (· ≠ '\n')
  setInput (input.drop (line.length + 1))
  let line := if raw then line else line.filter (· ≠ '\\')
  let separators := ((← get).bindings.lookup "IFS").getD [' ', '\t', '\n']
  assignFields separators names (line.dropWhile separators.contains)
  setStatus (if line.length < input.length then 0 else 1)

def kill (arguments : List Octets) : Run Unit := do
  let (signal, targets) := match arguments with
    | ['-', 's'] :: name :: targets => (Signal.number? name, targets)
    | ('-' :: name) :: targets => (Signal.number? name, targets)
    | targets => (some 15, targets)
  match signal with
  | none =>
    complain "kill: bad signal"
    setStatus 2
  | some signal =>
    setStatus 0
    for target in targets do
      if target = Expansion.processNumber || target = ['0'] then Signal.receive runScript signal
      else if target ≠ Expansion.backgroundNumber then
        complain "kill: No such process"
        setStatus 1

def setOptions : List Octets → Run Unit
  | [] => return
  | argument :: others => do
    match argument with
    | ['-', '-'] => modify fun state => { state with arguments := others }
    | ['-', 'o'] | ['+', 'o'] => return
    | '-' :: letters =>
      if letters.contains 'e' then modify fun state => { state with exitsOnError := true }
      setOptions others
    | '+' :: letters =>
      if letters.contains 'e' then modify fun state => { state with exitsOnError := false }
      setOptions others
    | _ => modify fun state => { state with arguments := argument :: others }

def setTrap (arguments : List Octets) : Run Unit := do
  setStatus 0
  match arguments with
  | action :: signals =>
    for signal in signals do
      if let some number := Signal.number? signal then
        modify fun state => { state with
          traps := (if action = ['-'] then [] else [(toString number, action)]) ++
            state.traps.filter fun entry => entry.1 ≠ toString number }
  | [] => return

/-- Commands that the shell itself carries out. -/
def builtin? (name : String) (arguments : List Octets) : Option (Run Unit) :=
  match name with
  | ":" | "true" => some (setStatus 0)
  | "false" => some (setStatus 1)
  | "echo" => some (Utility.echo arguments)
  | "printf" => some (Utility.printFormatted complain arguments)
  | "test" | "[" => some (Utility.condition complain name arguments)
  | "exit" => some do
    let status := (← get).status
    setStatus (← numberArgument name status arguments)
    throw .exit
  | "return" => some do
    let status := (← get).status
    setStatus (← numberArgument name status arguments)
    throw .back
  | "break" => some do
    let loops ← numberArgument name 1 arguments
    setStatus 0
    throw (.leave loops)
  | "continue" => some do
    let loops ← numberArgument name 1 arguments
    setStatus 0
    throw (.again loops)
  | "eval" => some do
    setStatus 0
    runScript (List.intercalate [' '] arguments)
  | "." => some do
    match (← get).world.file? (localPath (arguments.headD [])) with
    | some file => runScript file.content
    | none => abort (".: cannot open " ++ String.ofList (arguments.headD []) ++ ": No such file")
  | "shift" => some do
    let count ← numberArgument name 1 arguments
    if (← get).arguments.length < count then abort "shift: can't shift that many"
    modify fun state => { state with arguments := state.arguments.drop count }
    setStatus 0
  | "set" => some do
    setStatus 0
    setOptions arguments
  | "export" => some do
    setStatus 0
    for argument in arguments.filter fun argument => argument.head? ≠ some '-' do
      let key ← assignWord name argument
      modify fun state => { state with exported := key :: state.exported }
  | "readonly" => some do
    setStatus 0
    for argument in arguments.filter fun argument => argument.head? ≠ some '-' do
      let _ ← assignWord name argument
  | "local" => some do
    setStatus 0
    for argument in arguments do
      let key := String.ofList (argument.takeWhile (· ≠ '='))
      let before ← held? key
      modify fun state => { state with locals := (key, before) :: state.locals }
      let _ ← assignWord name argument
  | "unset" => some do
    setStatus 0
    for argument in arguments.filter fun argument => argument.head? ≠ some '-' do
      unset (String.ofList argument)
  | "read" => some (readLine arguments)
  | "kill" => some (kill runScript arguments)
  | "trap" => some (setTrap arguments)
  | "wait" => some do
    let state ← get
    setStatus (if arguments.isEmpty then 0 else state.backgroundStatus.getD 127)
    pass (state.backgroundEnd - state.world.clock)
  | "cd" => some do
    let path := arguments.headD []
    if path.isEmpty || path = ['-'] || isDirectory (localPath path) then setStatus 0
    else
      complain ("cd: can't cd to " ++ String.ofList path)
      setStatus 2
  | "umask" | "hash" | "ulimit" => some (setStatus 0)
  | _ => none

/-- Calls a function. -/
def callFunction (eval : Node → Run Unit) (body : Node) (arguments : List Octets) : Run Unit := do
  let before ← get
  modify fun state => { state with arguments := arguments, locals := [] }
  let restore : Run Unit := do
    for (name, value) in (← get).locals do
      match value with
      | some value => assign name value
      | none => unset name
    modify fun state => { state with arguments := before.arguments, locals := before.locals }
  guarded restore do
    tryCatch (eval body) fun stop =>
      match stop with
      | .back => return
      | stop => throw stop

/-- Runs a command with its arguments. -/
def invoke (eval : Node → Run Unit) (name : Octets) (arguments : List Octets) : Run Unit := do
  let key := String.ofList name
  match (← get).functions.lookup key with
  | some body => callFunction eval body arguments
  | none =>
    if key = "command" then
      match arguments with
      | [] => setStatus 0
      | ['-', 'v'] :: names =>
        let key := String.ofList (names.headD [])
        if (builtin? runScript key []).isSome then print (names.headD [] ++ ['\n'])
        else if (program? runScript key).isSome then printString ("/usr/bin/" ++ key ++ "\n")
        else setStatus 127
      | name :: arguments =>
        match builtin? runScript (String.ofList name) arguments with
        | some run => run
        | none => runProgram runScript "" name arguments
    else if key = "exec" then
      match arguments with
      | [] => setStatus 0
      | name :: arguments =>
        runProgram runScript "exec: " name arguments
        throw .exit
    else if key = "env" then
      let isAssignment (argument : Octets) : Bool := argument.contains '='
      isolated do
        for argument in arguments.takeWhile isAssignment do
          let key ← assignWord "env" argument
          modify fun state => { state with exported := key :: state.exported }
        match arguments.dropWhile isAssignment with
        | [] =>
          setStatus 0
          let state ← get
          for (name, value) in state.bindings.reverse do
            if state.exported.contains name then print (name.toList ++ '=' :: value ++ ['\n'])
        | name :: arguments => runProgram runScript "" name arguments
    else
      match builtin? runScript key arguments with
      | some run => run
      | none => runProgram runScript "" name arguments

def isCommandPart : Part → Bool
  | .command _ _ => true
  | _ => false

/-- Runs a command that is words only. -/
def simple (eval : Node → Run Unit) (assignments : List (String × Word)) (words : List Word)
    (redirections : List Redirection) : Run Unit := do
  let fields ← Expansion.expandAll runScript words
  match fields with
  | [] =>
    for (name, word) in assignments do
      assign name (← Expansion.expandText runScript word)
    unless words.any (·.any isCommandPart) || assignments.any (·.2.any isCommandPart) do
      setStatus 0
    unless redirections.isEmpty do withRedirections runScript redirections (return)
  | name :: arguments =>
    if name = "exec".toList && arguments.isEmpty then
      let _ ← redirectAll runScript redirections
      setStatus 0
    else
      withRedirections runScript redirections do
        let before ← assignments.mapM fun (name, _) => return (name, ← held? name)
        let exported := (← get).exported
        for (name, word) in assignments do
          assign name (← Expansion.expandText runScript word)
          modify fun state => { state with exported := name :: state.exported }
        let restore : Run Unit := do
          for (name, value) in before do
            match value with
            | some value => assign name value
            | none => unset name
          modify fun state => { state with exported := exported }
        if assignments.isEmpty then invoke runScript eval name arguments
        else guarded restore (invoke runScript eval name arguments)

/-- Runs the commands of a pipeline, each with the output of the one before as its input. -/
def runPipeline (eval : Node → Run Unit) : List Node → Run Unit
  | [] => return
  | [command] => isolated (eval command)
  | command :: others => do
    let text ← collect (eval command)
    withInput text (runPipeline eval others)

def forEach (eval : Node → Run Unit) (name : String) (body : Node) : List Octets → Run Unit
  | [] => return
  | value :: others => do
    assign name value
    if ← oneRound (eval body) then forEach eval name body others

/-- The first branch of which a pattern matches. -/
def choose (text : Octets) : List (List Word × Node) → Run (Option Node)
  | [] => return none
  | (patterns, body) :: others => do
    let found ← patterns.mapM (Expansion.expandPattern runScript)
    if found.any fun pattern => patternMatches pattern text then return some body
    choose text others

/-- Runs a command beside the others. Its time does not count. -/
def runBeside (body : Run Unit) : Run Unit := do
  let clock := (← get).world.clock
  tryCatch (isolated body) fun stop =>
    match stop with
    | .timeout => changeWorld fun world => { world with clock := world.deadline }
    | stop => throw stop
  modify fun state => { state with
    backgroundEnd := max state.backgroundEnd state.world.clock
    backgroundStatus := some state.status
    world := { state.world with clock := clock } }
  setStatus 0

end

/-- Runs a command, in which others may be nested as deeply as given. The runner of scripts is given
the depth that is left. -/
def eval (runAt : Nat → Octets → Run Unit) : Nat → Node → Run Unit
  | 0, _ => throw (.signal 11)
  | depth + 1, node => do
    let runScript := runAt depth
    let inner := eval runAt depth
    match node with
    | .empty => return
    | .simple line assignments words redirections =>
      step
      modify fun state => { state with line := line }
      simple runScript inner assignments words redirections
      checkFailure
    | .pipeline commands =>
      runPipeline inner commands
      checkFailure
    | .both left right =>
      tested (inner left)
      if (← get).status = 0 then inner right
    | .either left right =>
      tested (inner left)
      unless (← get).status = 0 do inner right
    | .negation command =>
      tested (inner command)
      setStatus (if (← get).status = 0 then 1 else 0)
    | .sequence first second =>
      inner first
      inner second
    | .background command => runBeside (inner command)
    | .redirected command redirections => withRedirections runScript redirections (inner command)
    | .subshell body =>
      isolated (process runScript (do
        modify fun state => { state with traps := [] }
        inner body))
      checkFailure
    | .conditional test consequence alternative =>
      tested (inner test)
      if (← get).status = 0 then inner consequence
      else
        setStatus 0
        inner alternative
    | .loop wanted test body =>
      let round : Run Bool := do
        step
        let before := (← get).status
        tested (inner test)
        if decide ((← get).status = 0) = wanted then oneRound (inner body)
        else
          setStatus before
          return false
      setStatus 0
      fun state => repeatWhile round World.stepLimit state
    | .forEach name words body =>
      let values ← match words with
        | some words => Expansion.expandAll runScript words
        | none => State.arguments <$> get
      setStatus 0
      forEach inner name body values
    | .choice word branches =>
      let text ← Expansion.expandText runScript word
      match ← choose runScript text branches with
      | some body =>
        setStatus 0
        inner body
      | none => setStatus 0
    | .function name body =>
      modify fun state => { state with functions := (name, body) :: state.functions }
      setStatus 0

/-- Runs a script line by line. -/
def runLines (eval : Node → Run Unit) : Nat → Source → Run Unit
  | 0, _ => return
  | limit + 1, source => do
    match Parser.line? source with
    | .error error =>
      modify fun state => { state with line := error.line }
      abort error.message
    | .ok (none, _) => return
    | .ok (some node, rest) =>
      eval node
      runLines eval limit rest

/-- How deeply commands may be nested while they run. -/
def deepestRun : Nat := 1000

/-- Runs a script in which commands may be nested as deeply as given. -/
def runScript : Nat → Octets → Run Unit
  | 0, _ => throw (.signal 11)
  | depth + 1, script =>
    runLines (eval (fun left => runScript (min left depth)) (depth + 1)) (script.length + 1)
      ⟨script, 1⟩

end CodeOutline.Shell
