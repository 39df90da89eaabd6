import CodeOutline.Diagnostic
import CodeOutline.Execution.Command

namespace CodeOutline

structure Report where
  diagnostics : List Diagnostic
  /-- What the program wrote, if it was run. -/
  output : Option String
  deriving DecidableEq, Repr

namespace Report

/-- A report of a program that was not run. -/
def failed (diagnostics : List Diagnostic) : Report :=
  ⟨diagnostics, none⟩

def failedWith (message : String) : Report :=
  failed [.general message]

/-- A tool that is not there, with a hint how to install it. -/
def notFound (program : String) : Report :=
  let hint := if program = Language.javaScript.command then Language.javaScript.installHint
    else Language.c.installHint
  failedWith (program ++ " not found in PATH. " ++ hint)

def notStarted (program : String) : SpawnError → Report
  | .notFound => notFound program
  | error => failedWith ("Failed to execute " ++ program ++ ": " ++ error.message)

def timeoutMessage (activity : String) (seconds : Nat) : String :=
  activity ++ " timed out after " ++ toString seconds ++ "s"

end Report

namespace CompiledProgram

/-- The report of a compilation that failed. -/
def compileFailure? (tools : ToolSettings) : Attempt → Option Report
  | .error error => some (.notStarted tools.compiler error)
  | .ok outcome =>
    match outcome.ending with
    | .exited 0 => none
    | .timedOut =>
      some (.failedWith (Report.timeoutMessage "compilation" tools.compileTimeout))
    | ending =>
      if Text.isBlank outcome.errors then
        some (.failedWith (tools.compiler ++ " exited with " ++ ending.text))
      else some (.failed (CompilerMessage.ofFailure outcome.errors))

/-- What the compiler wrote although it succeeded. -/
def warnings : Attempt → List Diagnostic
  | .error _ => []
  | .ok outcome => CompilerMessage.parse outcome.errors

/-- The message about a run that did not end well. -/
def runFailure (tools : ToolSettings) : Ending → List Diagnostic
  | .exited 0 => []
  | .timedOut => [.general (Report.timeoutMessage "execution" tools.runTimeout)]
  | ending => [.general ("program exited with " ++ ending.text)]

/-- What the program wrote to its error stream. -/
def complaints (outcome : Outcome) : List Diagnostic :=
  if Text.isBlank outcome.errors then [] else [.general (Text.trim outcome.errors)]

def runReport (tools : ToolSettings) (warnings : List Diagnostic) : Attempt → Report
  | .error error => .failedWith ("Failed to run the compiled program: " ++ error.message)
  | .ok outcome =>
    ⟨warnings ++ complaints outcome ++ runFailure tools outcome.ending, some outcome.output⟩

/-- The report of both steps. The second one counts only if the first one succeeds. -/
def report (tools : ToolSettings) (compiled ran : Attempt) : Report :=
  (compileFailure? tools compiled).getD (runReport tools (warnings compiled) ran)

end CompiledProgram

namespace ScriptProgram

/-- The report of a check that failed. -/
def checkFailure? (tools : ToolSettings) : Attempt → Option Report
  | .error error => some (.notStarted tools.node error)
  | .ok outcome =>
    if outcome.ending.isSuccess then none
    else some (.failed [RuntimeReport.parse outcome.errors])

/-- The message about a run that did not end well. -/
def runFailure (tools : ToolSettings) (outcome : Outcome) : List Diagnostic :=
  match outcome.ending with
  | .exited 0 => []
  | .timedOut => [.general (Report.timeoutMessage "execution" tools.runTimeout)]
  | ending =>
    if Text.isBlank outcome.errors then [.general ("script exited with " ++ ending.text)]
    else [RuntimeReport.parse outcome.errors]

/-- The output of a run, to which the error stream belongs unless it tells why the run failed. -/
def runReport (tools : ToolSettings) : Attempt → Report
  | .error error => .failedWith ("Failed to run the script: " ++ error.message)
  | .ok outcome =>
    let complaints := if outcome.ending.isSuccess then outcome.errors else ""
    ⟨runFailure tools outcome, some (outcome.output ++ complaints)⟩

/-- The report of both steps. The second one counts only if the first one succeeds. -/
def report (tools : ToolSettings) (checked ran : Attempt) : Report :=
  (checkFailure? tools checked).getD (runReport tools ran)

end ScriptProgram

end CodeOutline
