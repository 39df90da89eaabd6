import CodeOutline.Language
import CodeOutline.Settings.Basic

namespace CodeOutline

inductive SpawnError where
  | notFound
  | permissionDenied
  | other (message : String)
  deriving DecidableEq, Repr

def SpawnError.message : SpawnError → String
  | .notFound => "No such file or directory (os error 2)"
  | .permissionDenied => "Permission denied (os error 13)"
  | .other message => message

inductive Ending where
  | exited (status : Nat)
  | signalled
  /-- Stopped because its time was over. -/
  | timedOut
  deriving DecidableEq, Repr

namespace Ending

def status? : Ending → Option Nat
  | .exited status => some status
  | _ => none

def isSuccess (ending : Ending) : Bool :=
  ending = .exited 0

def text : Ending → String
  | .exited status => "status " ++ toString status
  | _ => "no exit status (terminated by a signal)"

end Ending

structure Outcome where
  ending : Ending
  output : String
  errors : String
  deriving DecidableEq, Repr

/-- A command that was tried. -/
abbrev Attempt := Except SpawnError Outcome

end CodeOutline

namespace CodeOutline

structure Command where
  program : String
  arguments : List String
  deriving DecidableEq, Repr

namespace Command

/-- The name of a compiled program. -/
def binaryFile : String := "main"

def compile (compiler : String) (flags : List String) : Command :=
  ⟨compiler, [Language.c.sourceFile, "-o", binaryFile] ++ flags⟩

/-- Checks the syntax of a script without running it. -/
def checkScript (tools : ToolSettings) : Command :=
  ⟨tools.node, ["--check", Language.javaScript.sourceFile]⟩

/-- Runs a script that may read nothing but the file at the given path, which is its own. -/
def runScript (tools : ToolSettings) (path : String) : Command :=
  ⟨tools.node,
    [tools.permissionFlag, "--allow-fs-read=" ++ path, Language.javaScript.sourceFile]⟩

end Command

end CodeOutline
