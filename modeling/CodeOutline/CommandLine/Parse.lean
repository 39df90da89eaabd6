import CodeOutline.Text.Scan

namespace CodeOutline.CommandLine

inductive Flag where
  | verbose
  | config
  | input
  | language
  | format
  | output
  | noRun
  | port
  | help
  | version
  deriving DecidableEq, Repr

namespace Flag

def short? : Flag → Option Char
  | .verbose => some 'v'
  | .config => none
  | .input => some 'i'
  | .language => some 'l'
  | .format => some 'f'
  | .output => some 'o'
  | .noRun => none
  | .port => some 'p'
  | .help => some 'h'
  | .version => some 'V'

def long : Flag → String
  | .verbose => "verbose"
  | .config => "config"
  | .input => "input"
  | .language => "lang"
  | .format => "format"
  | .output => "output"
  | .noRun => "no-run"
  | .port => "port"
  | .help => "help"
  | .version => "version"

def takesValue : Flag → Bool
  | .config | .input | .language | .format | .output | .port => true
  | .verbose | .noRun | .help | .version => false

/-- Flags that any command may have. -/
def common : List Flag := [.verbose, .config, .help]

def ofTop : List Flag := common ++ [.version]

def ofAnalysis : List Flag := common ++ [.input, .language, .format, .output, .noRun]

def ofServer : List Flag := common ++ [.port, .noRun]

end Flag

/-- A port number, in decimal digits after an optional sign. -/
def port? (text : String) : Option Nat :=
  match text.toList with
  | '+' :: digits => Text.decimal? UInt16.size digits
  | '-' :: digits => Text.decimal? 1 digits
  | digits => Text.decimal? UInt16.size digits

/-- Why the arguments are not carried out. -/
inductive Exit where
  | usage
  | help
  | version
  deriving DecidableEq, Repr

/-- The flags given so far, with their values. -/
abbrev Given := List (Flag × String)

namespace Given

/-- Adds a flag. Only verbosity may be asked for more than once. -/
def add (given : Given) (flag : Flag) (value : String) : Except Exit Given :=
  if flag = .help then .error .help
  else if flag = .version then .error .version
  else if flag ≠ .verbose ∧ (given.lookup flag).isSome then .error .usage
  else if (flag = .config ∨ flag = .input) ∧ value.isEmpty then .error .usage
  else if flag = .port ∧ (port? value).isNone then .error .usage
  else .ok (given ++ [(flag, value)])

def has (given : Given) (flag : Flag) : Bool :=
  (given.lookup flag).isSome

def count (given : Given) (flag : Flag) : Nat :=
  given.countP fun entry => entry.1 = flag

end Given

end CodeOutline.CommandLine

namespace CodeOutline.CommandLine

/-- Whether an argument can be the value of the flag before it. -/
def isValue (argument : String) : Bool :=
  argument = "-" || argument.toList.head? ≠ some '-'

/-- Reads flags in a cluster of single letters. A flag that takes a value takes what is left of the
cluster, of which an equals sign at the start is dropped, or else the next argument. -/
def readCluster (known : List Flag) (others : List String) (given : Given) :
    List Char → Except Exit (Given × List String)
  | [] => .ok (given, others)
  | letter :: rest =>
    match known.find? fun flag => flag.short? = some letter with
    | none => .error .usage
    | some flag =>
      if !flag.takesValue then do
        let given ← given.add flag ""
        readCluster known others given rest
      else if rest.isEmpty then
        match others with
        | value :: others =>
          if isValue value then (given.add flag value).map (·, others) else .error .usage
        | [] => .error .usage
      else
        let value := String.ofList ((Text.strip? ['='] rest).getD rest)
        (given.add flag value).map (·, others)

/-- Reads a flag that is written out. Its value follows an equals sign or is the next argument. -/
def readLong (known : List Flag) (others : List String) (given : Given) (text : List Char) :
    Except Exit (Given × List String) :=
  let name := String.ofList (text.takeWhile (· ≠ '='))
  let attached := (Text.strip? ['='] (text.dropWhile (· ≠ '='))).map String.ofList
  match known.find? fun flag => flag.long = name with
  | none => .error .usage
  | some flag =>
    match flag.takesValue, attached, others with
    | false, none, _ => (given.add flag "").map (·, others)
    | true, some value, _ => (given.add flag value).map (·, others)
    | true, none, value :: others =>
      if isValue value then (given.add flag value).map (·, others) else .error .usage
    | _, _, _ => .error .usage

/-- Reads flags up to an argument that is none. -/
def readFlags (known : List Flag) (given : Given) : Nat → List String →
    Except Exit (Given × List String)
  | 0, arguments => .ok (given, arguments)
  | _, [] => .ok (given, [])
  | limit + 1, argument :: others =>
    match argument.toList with
    | ['-', '-'] => if others.isEmpty then .ok (given, []) else .error .usage
    | '-' :: '-' :: text => do
      let (given, others) ← readLong known others given text
      readFlags known given limit others
    | '-' :: letter :: letters => do
      let (given, others) ← readCluster known others given (letter :: letters)
      readFlags known given limit others
    | _ => .ok (given, argument :: others)

inductive Task where
  | analyse (input : String) (language : Option String) (format : String)
      (output : Option String) (runs : Bool)
  | serve (port : Option Nat) (runs : Bool)
  deriving DecidableEq, Repr

structure Invocation where
  verbosity : Nat
  config : Option String
  task : Task
  deriving DecidableEq, Repr

/-- The largest verbosity that is counted. -/
def largestVerbosity : Nat := 255

namespace Invocation

/-- What the flags before and after the name of the command say together. Of a flag that may stand
in both places, those after the name count. -/
def ofTask (before after : Given) (task : Task) : Invocation where
  verbosity :=
    min largestVerbosity
      (if after.has .verbose then after.count .verbose else before.count .verbose)
  config := (after.lookup .config).or (before.lookup .config)
  task := task

def analysis (before : Given) (arguments : List String) : Except Exit Invocation := do
  let (after, others) ← readFlags Flag.ofAnalysis [] arguments.length arguments
  unless others.isEmpty do throw .usage
  match after.lookup .input with
  | none => throw .usage
  | some input =>
    return ofTask before after
      (.analyse input (after.lookup .language) ((after.lookup .format).getD "json")
        (after.lookup .output) (!after.has .noRun))

def server (before : Given) (arguments : List String) : Except Exit Invocation := do
  let (after, others) ← readFlags Flag.ofServer [] arguments.length arguments
  unless others.isEmpty do throw .usage
  return ofTask before after (.serve ((after.lookup .port).bind port?) (!after.has .noRun))

def ofArguments (arguments : List String) : Except Exit Invocation := do
  let (before, others) ← readFlags Flag.ofTop [] arguments.length arguments
  match others with
  | "analyze" :: others => analysis before others
  | "serve" :: others => server before others
  | ["help"] => throw .help
  | ["help", topic] => throw (if ["analyze", "serve", "help"].contains topic then .help else .usage)
  | _ => throw .usage

end Invocation

end CodeOutline.CommandLine
