import CodeOutline.Analysis.Result
import CodeOutline.Json.Basic

namespace CodeOutline

def Location.toJson (location : Location) : Json :=
  .object [("line", .nat location.line), ("column", .nat location.column)]

def NodeLabel.members (label : NodeLabel) (children : List Json) : Json :=
  Json.objectOf [
    ("kind", some (.string label.kind.name)),
    ("relation", some (.string label.relation.label)),
    ("name", label.name.map .string),
    ("rawText", label.rawText.map .string),
    ("location", some label.location.toJson),
    ("children", some (.array children))]

def ScriptLabel.members (label : ScriptLabel) (children : List Json) : Json :=
  Json.objectOf [
    ("type", some (.string label.kind)),
    ("field", label.field.map .string),
    ("text", label.text.map .string),
    ("loc", some (.object [("start", label.start.toJson), ("end", label.stop.toJson)])),
    ("children", some (.array children))]

mutual

/-- A tree as a value, given how a node with its children is encoded. -/
def Tree.encode {α : Type} (members : α → List Json → Json) : Tree α → Json
  | .node label children => members label (Tree.encodeAll members children)

def Tree.encodeAll {α : Type} (members : α → List Json → Json) : List (Tree α) → List Json
  | [] => []
  | tree :: others => tree.encode members :: Tree.encodeAll members others

end

def SyntaxTree.toJson : SyntaxTree → Json
  | .outline tree => tree.encode NodeLabel.members
  | .script tree => tree.encode ScriptLabel.members

def SymbolEntry.toJson (entry : SymbolEntry) : Json :=
  Json.objectOf [
    ("kind", some (.string entry.kind.name)),
    ("declaredType", some (.string entry.declaredType)),
    ("scope", some (.string entry.scope.text)),
    ("line", some (.nat entry.line)),
    ("column", some (.nat entry.column)),
    ("params", entry.parameters.map Json.strings),
    ("pseudoAddress", some (.string entry.pseudoAddress))]

def SymbolTable.toJson (table : SymbolTable) : Json :=
  .object (table.entries.map fun (name, entry) => (name, entry.toJson))

def Diagnostic.toJson (diagnostic : Diagnostic) : Json :=
  .object [("line", .nat diagnostic.line), ("message", .string diagnostic.message)]

/-- The answer to a request: what the program wrote, the messages, the tree and the symbols. -/
def AnalysisResult.toJson (result : AnalysisResult) : Json :=
  .object [
    ("output", .string (result.output.getD "")),
    ("errors", .array (result.diagnostics.map Diagnostic.toJson)),
    ("ast", match result.tree with
      | some tree => tree.toJson
      | none => .null),
    ("symbolTable", result.symbols.toJson)]

end CodeOutline
