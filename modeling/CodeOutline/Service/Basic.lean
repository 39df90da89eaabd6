import CodeOutline.Analysis.Result
import CodeOutline.Execution.Report
import CodeOutline.Outline.Program
import CodeOutline.Script.Parser
import CodeOutline.Symbol.Collect

namespace CodeOutline

structure Pipeline where
  tree : String → Option SyntaxTree
  /-- The symbols of a text, unless an address cannot be computed for one of them. -/
  symbols? : String → Option SymbolTable
  syntaxErrors : String → List Diagnostic
  /-- Runs a program, if programs are run at all. -/
  execute : Option (String → Report)

namespace Pipeline

/-- The result with the given symbols. A program with syntax errors is not run. -/
def result (pipeline : Pipeline) (text : String) (symbols : SymbolTable) : AnalysisResult :=
  let tree := pipeline.tree text
  match pipeline.syntaxErrors text with
  | [] =>
    match pipeline.execute with
    | none => ⟨tree, symbols, [], none⟩
    | some execute =>
      let report := execute text
      ⟨tree, symbols, report.diagnostics, report.output⟩
  | errors => ⟨tree, symbols, errors, none⟩

def analyse? (pipeline : Pipeline) (text : String) : Option AnalysisResult :=
  (pipeline.symbols? text).map (pipeline.result text)

/-- The outline of a C text. It is made of every text, so there are no syntax errors. -/
def outline (execute : Option (String → Report)) : Pipeline where
  tree text := some (.outline (structuralTree text))
  symbols? := symbolTable?
  syntaxErrors _ := []
  execute := execute

def script (execute : Option (String → Report)) : Pipeline where
  tree text := (Script.syntaxTree text).map .script
  symbols? := Script.symbolTable?
  syntaxErrors := Script.syntaxErrors
  execute := execute

end Pipeline

end CodeOutline

namespace CodeOutline

inductive RequestError where
  | missingCode
  | unknownLanguage (name : String)
  | unsupported (language : Language)
  /-- The address of a symbol cannot be computed. -/
  | addressOverflow
  deriving DecidableEq, Repr

def RequestError.message : RequestError → String
  | .missingCode => "No code provided"
  | .unknownLanguage name => "Unknown language: " ++ name
  | .unsupported language => language.name ++ " is not enabled on this server"
  | .addressOverflow => "attempt to add with overflow"

structure Service where
  pipeline? : Language → Option Pipeline

namespace Service

def supports (service : Service) (language : Language) : Bool :=
  (service.pipeline? language).isSome

/-- Blank code counts as none. -/
def compile (service : Service) (language : Language) (code : Option String) :
    Except RequestError AnalysisResult :=
  match code.filter (!Text.isBlank ·) with
  | none => .error .missingCode
  | some code =>
    match service.pipeline? language with
    | none => .error (.unsupported language)
    | some pipeline =>
      match pipeline.analyse? code with
      | none => .error .addressOverflow
      | some result => .ok result

/-- A request that names the language. -/
def request (service : Service) (language : String) (code : Option String) :
    Except RequestError AnalysisResult :=
  match Language.ofName? language with
  | none => .error (.unknownLanguage language)
  | some language => service.compile language code

/-- The service with pipelines for the given languages, which run nothing. -/
def ofLanguages (languages : List Language) : Service where
  pipeline? language :=
    if languages.contains language then
      some (match language with
        | .c => .outline none
        | .javaScript => .script none)
    else none

/-- The service for both languages. -/
def standard (execute : Option (Language → String → Report)) : Service where
  pipeline? language :=
    some (match language with
      | .c => .outline (execute.map (· .c))
      | .javaScript => .script (execute.map (· .javaScript)))

end Service

end CodeOutline
