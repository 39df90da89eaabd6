import CodeOutline.Diagnostic
import CodeOutline.Outline.Node
import CodeOutline.Script.ParseTree
import CodeOutline.Symbol.Table

namespace CodeOutline

inductive SyntaxTree where
  | outline (tree : Node)
  | script (tree : ScriptNode)

structure AnalysisResult where
  tree : Option SyntaxTree
  symbols : SymbolTable
  diagnostics : List Diagnostic
  /-- What the program wrote, if it was run. -/
  output : Option String

def AnalysisResult.hasErrors (result : AnalysisResult) : Bool :=
  result.diagnostics.any Diagnostic.isError

end CodeOutline
