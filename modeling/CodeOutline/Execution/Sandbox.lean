import CodeOutline.Execution.Report
import CodeOutline.Shell.Spawn

namespace CodeOutline.Sandbox

open Shell

/-- A directory that holds a program, and the scripts beside it. -/
def worldOf (scripts : List (String × String)) (language : Language) (code : String) : World :=
  let world := World.empty.put language.sourceFile (.ofOctets (Text.octets code))
  scripts.foldl (fun world (path, script) =>
    world.put path { File.ofOctets (Text.octets script) with executable := true }) world

/-- The path of a file in the directory. -/
def pathOf (name : String) : String :=
  directory ++ "/" ++ name

def compileAndRun (tools : ToolSettings) (scripts : List (String × String)) (code : String) :
    Report :=
  let (compiled, world) := spawn (worldOf scripts .c code) standardVariables "compile"
    (1000 * tools.compileTimeout) (.compile tools.compiler tools.extraFlags)
  match CompiledProgram.compileFailure? tools compiled with
  | some report => report
  | none =>
    let (ran, _) := spawn world standardVariables "run" (1000 * tools.runTimeout)
      ⟨pathOf Command.binaryFile, []⟩
    CompiledProgram.runReport tools (CompiledProgram.warnings compiled) ran

/-- A script sees nothing of the variables around it but the search path. -/
def checkAndRun (tools : ToolSettings) (scripts : List (String × String)) (code : String) :
    Report :=
  let (checked, world) := spawn (worldOf scripts .javaScript code) standardVariables "check"
    (1000 * tools.runTimeout) (.checkScript tools)
  match ScriptProgram.checkFailure? tools checked with
  | some report => report
  | none =>
    let path := pathOf Language.javaScript.sourceFile
    let (ran, _) := spawn world [searchPath] "run" (1000 * tools.runTimeout)
      (.runScript tools path)
    ScriptProgram.runReport tools ran

def execute (scripts : List (String × String)) (tools : ToolSettings) :
    Language → String → Report
  | .c => compileAndRun tools scripts
  | .javaScript => checkAndRun tools scripts

end CodeOutline.Sandbox
