import CodeOutline.CommandLine.Parse
import CodeOutline.Render.Format
import CodeOutline.Service.Basic
import CodeOutline.Settings.Load

namespace CodeOutline

inductive LogLevel where
  | off
  | error
  | warn
  | info
  | debug
  | trace
  deriving DecidableEq, Repr

namespace LogLevel

def all : List LogLevel := [.off, .error, .warn, .info, .debug, .trace]

def name : LogLevel → String
  | .off => "OFF"
  | .error => "ERROR"
  | .warn => "WARN"
  | .info => "INFO"
  | .debug => "DEBUG"
  | .trace => "TRACE"

/-- The level for the number of times that verbosity is asked for. -/
def ofVerbosity? (verbosity : Nat) : Option LogLevel :=
  all[verbosity]?

def verbosityMessage (verbosity : Nat) : String :=
  "Verbosity must be between 0 and " ++ toString (all.length - 1) ++ ", not " ++
    toString verbosity ++ "!"

end LogLevel

end CodeOutline

namespace CodeOutline.CommandLine

inductive Action where
  | print (text : String)
  | write (path content : String)
  | listen (server : ServerSettings) (service : Service)
  /-- Ends with a message and status 1. -/
  | fail (message : String)
  /-- Ends at once with the given status. -/
  | stop (status : Nat)

def programName : String := "mini_compiler"

def programVersion : String := "0.1.0"

def usage : String :=
  "Usage: " ++ programName ++ " [-v]... [--config FILE] COMMAND\n\n" ++
    "Commands:\n" ++
    "  analyze -i FILE [-l LANG] [-f json|dot|text] [-o FILE] [--no-run]\n" ++
    "  serve [-p PORT] [--no-run]"

def writeFailure (path : String) : String :=
  "Cannot write output file: " ++ path

def bindFailure (server : ServerSettings) : String :=
  "Failed to bind to " ++ server.address

/-- What a command line sees of the outside. -/
structure Surroundings where
  read : String → Option String
  /-- The port that the environment asks for. -/
  port : Option String
  execute : ToolSettings → Language → String → Report

/-- The files that a command line reads. -/
def paths (arguments : List String) : List String :=
  match Invocation.ofArguments arguments with
  | .error _ => []
  | .ok invocation =>
    invocation.config.toList ++
      match invocation.task with
      | .analyse input _ _ _ _ => [input]
      | .serve _ _ => []

variable (surroundings : Surroundings)

def service (settings : Settings) (runs : Bool) : Service :=
  .standard (if runs then some (surroundings.execute settings.tools) else none)

def language (input : String) : Option String → Except String Language
  | none => .ok ((Language.ofPath? input).getD .c)
  | some name =>
    match Language.ofName? name with
    | some language => .ok language
    | none => .error (RequestError.message (.unknownLanguage name))

def format (name : String) : Except String OutputFormat :=
  match OutputFormat.ofName? name with
  | some format => .ok format
  | none => .error ("Unknown output format: " ++ name ++ " (expected json, dot or text)")

def analyse (settings : Settings) (input : String) (languageName : Option String)
    (formatName : String) (output : Option String) (runs : Bool) : Except String Action := do
  let language ← language input languageName
  let format ← format formatName
  match surroundings.read input with
  | none => throw ("Cannot read input file: " ++ input)
  | some code =>
    match (service surroundings settings runs).compile language (some code) with
    | .error .addressOverflow => return .stop 101
    | .error error => throw error.message
    | .ok result =>
      match output with
      | none => return .print (result.render format)
      | some path => return .write path (result.render format)

def carryOut (invocation : Invocation) : Except String Action := do
  if (LogLevel.ofVerbosity? invocation.verbosity).isNone then
    throw (LogLevel.verbosityMessage invocation.verbosity)
  let file := invocation.config.map fun path => (path, surroundings.read path)
  let settings ← (Settings.load file surroundings.port).mapError SettingsError.message
  match invocation.task with
  | .analyse input language format output runs =>
    analyse surroundings settings input language format output runs
  | .serve port runs =>
    let server := { settings.server with port := port.getD settings.server.port }
    return .listen server (service surroundings settings runs)

def run (arguments : List String) : Action :=
  match Invocation.ofArguments arguments with
  | .error .usage => .stop 2
  | .error .help => .print usage
  | .error .version => .print (programName ++ " " ++ programVersion)
  | .ok invocation =>
    match carryOut surroundings invocation with
    | .ok action => action
    | .error message => .fail message

end CodeOutline.CommandLine
