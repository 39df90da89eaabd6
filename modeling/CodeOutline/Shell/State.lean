import CodeOutline.Shell.World

namespace CodeOutline.Shell

/-- Where what is written to a descriptor goes. -/
inductive Sink where
  | nowhere
  | file (name : String)
  /-- One of the outputs that the shell collects itself. -/
  | memory (index : Nat)
  deriving DecidableEq, Repr

structure State where
  world : World
  /-- The name of the shell, or of the script that it runs. -/
  name : Octets
  arguments : List Octets
  bindings : List (String × Octets)
  /-- The names of the variables that programs see. -/
  exported : List String
  /-- Variables of the function that runs, with the values that they have outside. -/
  locals : List (String × Option Octets)
  functions : List (String × Node)
  status : Nat
  line : Nat
  descriptors : List (Nat × Sink)
  /-- What is left of the input. -/
  input : Octets
  /-- Outputs that are being collected, the last piece first. -/
  outputs : List (List Octets)
  /-- Whether a command that fails ends the script. -/
  exitsOnError : Bool
  /-- How many tests are going on, in which commands may fail. -/
  tests : Nat
  /-- Commands to run on signals or at the exit. -/
  traps : List (String × Octets)
  /-- When the last command in the background ends. -/
  backgroundEnd : Nat
  /-- The status of the last command that was run in the background. -/
  backgroundStatus : Option Nat
  deriving Inhabited

inductive Stop where
  | exit
  | signal (number : Nat)
  /-- The time is over. -/
  | timeout
  /-- Leaves loops, as many as given. -/
  | leave (loops : Nat)
  /-- Goes on with the next round of a loop, after leaving as many inside of it. -/
  | again (loops : Nat)
  /-- Leaves a function. -/
  | back
  deriving DecidableEq, Repr

abbrev Run := ExceptT Stop (StateM State)

namespace Run

def changeWorld (change : World → World) : Run Unit :=
  modify fun state => { state with world := change state.world }

def setStatus (status : Nat) : Run Unit :=
  modify fun state => { state with status := status % 256 }

def sink (descriptor : Nat) : Run (Option Sink) :=
  return (← get).descriptors.lookup descriptor

def bind (descriptor : Nat) (sink : Sink) : Run Unit :=
  modify fun state => { state with descriptors := (descriptor, sink) :: state.descriptors }

def write (descriptor : Nat) (text : Octets) : Run Unit := do
  match ← sink descriptor with
  | some (.file name) => changeWorld fun world => world.append name text
  | some (.memory index) =>
    modify fun state => { state with outputs := state.outputs.modify index (text :: ·) }
  | some .nowhere | none => return

def print (text : Octets) : Run Unit := write 1 text

def printString (text : String) : Run Unit := write 1 text.toList

/-- A message of the shell, with its name and the line. -/
def complain (message : String) : Run Unit := do
  let state ← get
  write 2 (state.name ++ s!": {state.line}: {message}\n".toList)

/-- A message after which the shell ends. -/
def abort {α : Type} (message : String) : Run α := do
  complain message
  setStatus 2
  throw .exit

/-- Lets time pass, in milliseconds. -/
def pass (time : Nat) : Run Unit := do
  changeWorld fun world => { world with clock := world.clock + time }
  let world := (← get).world
  if world.deadline ≤ world.clock then throw .timeout

/-- Takes one of the steps that are left. -/
def step : Run Unit := do
  match (← get).world.steps with
  | 0 => throw .timeout
  | steps + 1 => changeWorld fun world => { world with steps := steps }

def held? (name : String) : Run (Option Octets) :=
  return (← get).bindings.lookup name

def assign (name : String) (value : Octets) : Run Unit :=
  modify fun state => { state with
    bindings := (name, value) :: state.bindings.filter fun entry => entry.1 ≠ name }

def unset (name : String) : Run Unit :=
  modify fun state => { state with
    bindings := state.bindings.filter fun entry => entry.1 ≠ name }

/-- Keeps what a run does to the world and its status, but nothing else of the state. -/
def isolated (body : Run Unit) : Run Unit := do
  let before ← get
  let restore : Run Unit := modify fun after => { before with
    world := after.world
    status := after.status
    outputs := after.outputs
    input := after.input
    backgroundEnd := after.backgroundEnd
    backgroundStatus := after.backgroundStatus }
  tryCatch body fun stop => do
    match stop with
    | .signal _ | .timeout =>
      restore
      throw stop
    | _ => return
  restore

/-- Collects what a run writes to its output. -/
def collect (body : Run Unit) : Run Octets := do
  let index := (← get).outputs.length
  let before := (← get).descriptors
  modify fun state => { state with
    outputs := state.outputs ++ [[]]
    descriptors := (1, .memory index) :: state.descriptors }
  isolated body
  let pieces := ((← get).outputs[index]?).getD []
  modify fun state => { state with
    outputs := state.outputs.take index
    descriptors := before }
  return pieces.reverse.flatten

/-- Runs with other input. -/
def withInput (input : Octets) (body : Run Unit) : Run Unit := do
  let before := (← get).input
  modify fun state => { state with input := input }
  body
  modify fun state => { state with input := before }

end Run

end CodeOutline.Shell
