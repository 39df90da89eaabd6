import CodeOutline.Analysis.Result
import CodeOutline.Render.Encode
import CodeOutline.Text.Scan

namespace CodeOutline.Plain

/-- A text on one line. -/
def flat (text : String) : String :=
  String.ofList (text.toList.map fun c => if c = '\n' then ' ' else c)

def bracketed (text : Option String) : String :=
  match text with
  | some text => " [" ++ flat text ++ "]"
  | none => ""

def place (location : Location) : String :=
  s!" @{location.line}:{location.column}"

def nodeText (label : NodeLabel) : String :=
  let name := match label.name with
    | some name => " \x60" ++ name ++ "\x60"
    | none => ""
  label.kind.name ++ name ++ bracketed label.rawText ++ place label.location

def scriptText (label : ScriptLabel) : String :=
  label.kind ++ bracketed label.text ++ place label.start

/-- The line of a node: two spaces for each level, what the node is to its parent, and its text. -/
def line (depth : Nat) (edge text : String) : String :=
  Text.spaces (2 * depth) ++ (if edge.isEmpty then "" else edge ++ ": ") ++ text

section

variable {α : Type} (edge text : α → String)

/-- The lines of the nodes in pre-order. -/
def treeLines (tree : Tree α) : List String :=
  (tree.rows 0).map fun (depth, label) =>
    line depth (if depth = 0 then "" else edge label) (text label)

end

def unlines (lines : List String) : String :=
  String.join (lines.map (· ++ "\n"))

def treeText : SyntaxTree → String
  | .outline tree => unlines (treeLines (fun label => label.relation.label) nodeText tree)
  | .script tree => unlines (treeLines (fun label => label.field.getD "child") scriptText tree)

/-- The row of a symbol, in columns. -/
def symbolRow (name : String) (entry : SymbolEntry) : String :=
  let parameters := match entry.parameters with
    | some names => "  (" ++ ", ".intercalate names ++ ")"
    | none => ""
  "  " ++ Text.padRight 16 name ++ " " ++ Text.padRight 10 entry.kind.name ++ " " ++
    Text.padRight 16 entry.declaredType ++ " " ++ Text.padRight 12 entry.scope.text ++
    s!" {entry.line}:{entry.column}  " ++ entry.pseudoAddress ++ parameters

def symbolSection (table : SymbolTable) : String :=
  unlines ("Symbols:" :: table.entries.map fun (name, entry) => symbolRow name entry)

def diagnosticSection (diagnostics : List Diagnostic) : String :=
  if diagnostics.isEmpty then ""
  else
    unlines ("" :: "Diagnostics:" :: diagnostics.map fun diagnostic =>
      s!"  {diagnostic.line}: " ++ diagnostic.message)

def outputSection : Option String → String
  | some output => "\nOutput:\n" ++ output
  | none => ""

def render (result : AnalysisResult) : String :=
  let tree := match result.tree with
    | some tree => treeText tree ++ "\n"
    | none => ""
  tree ++ symbolSection result.symbols ++ diagnosticSection result.diagnostics ++
    outputSection result.output

end CodeOutline.Plain

namespace CodeOutline.Dot

/-- How a node is drawn. -/
structure Look where
  label : String
  shape : String
  style : String
  color : String
  deriving DecidableEq, Repr

/-- Writes the text in place of every occurrence of the character. -/
def replace (char : Char) (text : List Char) (label : List Char) : List Char :=
  label.flatMap fun c => if c = char then text else [c]

/-- A label as it is written between quotes. Backslashes come first, as the others add some. -/
def escapeLabel (label : String) : String :=
  String.ofList <| replace '\n' ['\\', 'n'] <| replace '"' ['\\', '"'] <|
    replace '\\' ['\\', '\\'] label.toList

def nodeStatement (number : Nat) (look : Look) : String :=
  s!"    \"n{number}\" [label=\"" ++ escapeLabel look.label ++ "\", shape=" ++ look.shape ++
    ", style=\"" ++ look.style ++ "\", fillcolor=\"" ++ look.color ++ "\"];"

def edgeStatement (parent number : Nat) (label : String) : String :=
  s!"    \"n{parent}\" -> \"n{number}\" [label=\"" ++ label ++ "\"];"

section

variable {α : Type} (look : α → Look) (edge : α → String)

mutual

/-- The statements of a tree whose root gets the number `number`, with the next free number. -/
def statements (parent : Option Nat) (number : Nat) : Tree α → List String × Nat
  | .node label children =>
    let (others, next) := statementsAll number (number + 1) children
    (nodeStatement number (look label) ::
      (parent.toList.map fun parent => edgeStatement parent number (edge label)) ++ others, next)

def statementsAll (parent number : Nat) : List (Tree α) → List String × Nat
  | [] => ([], number)
  | tree :: others =>
    let (first, next) := statements (some parent) number tree
    let (rest, next) := statementsAll parent next others
    (first ++ rest, next)

end

def header : List String :=
  ["digraph SyntaxTree \x7b", "    rankdir=TB;", "    nodesep=0.6;", "    ranksep=0.8;",
    "    node [fontname=\"Helvetica\", fontsize=12];",
    "    edge [fontname=\"Helvetica\", fontsize=10];", ""]

def draw (tree : Tree α) : String :=
  "\n".intercalate (header ++ (statements look edge none 0 tree).1 ++ ["\x7d"])

end

/-- The kind of a node and, on lines of their own, its name and its text. -/
def nodeText (label : NodeLabel) : String :=
  "\n".intercalate (label.kind.name :: label.name.toList ++ label.rawText.toList)

def nodeLook (label : NodeLabel) : Look :=
  let (shape, color, style) := match label.kind with
    | .program => ("box", "#a6e3a1", "filled,rounded")
    | .functionDeclaration => ("box", "#89b4fa", "filled")
    | .ifStatement => ("diamond", "#f9e2af", "filled")
    | .forStatement | .whileStatement => ("hexagon", "#cba6f7", "filled")
    | .returnStatement => ("box", "#f38ba8", "filled,rounded")
    | .callExpression => ("box", "#94e2d5", "filled")
    | .blockStatement => ("box", "#cdd6f4", "filled,dashed")
    | _ => ("ellipse", "#e6e9ef", "filled")
  ⟨nodeText label, shape, style, color⟩

def scriptText (label : ScriptLabel) : String :=
  "\n".intercalate (label.kind :: label.text.toList)

def scriptLook (label : ScriptLabel) : Look :=
  if label.kind = "ERROR" then ⟨scriptText label, "box", "filled", "#f38ba8"⟩
  else ⟨scriptText label, "ellipse", "filled", "#e6e9ef"⟩

def scriptEdge (label : ScriptLabel) : String :=
  label.field.getD "child"

def ofNode (tree : Node) : String :=
  draw nodeLook (fun label => label.relation.label) tree

def ofScript (tree : ScriptNode) : String :=
  draw scriptLook scriptEdge tree

def render (result : AnalysisResult) : String :=
  match result.tree with
  | some (.outline tree) => ofNode tree
  | some (.script tree) => ofScript tree
  | none => "digraph SyntaxTree \x7b\n\x7d"

end CodeOutline.Dot

namespace CodeOutline

inductive OutputFormat where
  | json
  | dot
  | text
  deriving DecidableEq, Repr

namespace OutputFormat

def ofName? (name : String) : Option OutputFormat :=
  if name = "json" then some .json
  else if name = "dot" then some .dot
  else if name = "text" then some .text
  else none

end OutputFormat

def AnalysisResult.render (result : AnalysisResult) : OutputFormat → String
  | .json => result.toJson.pretty
  | .dot => Dot.render result
  | .text => Plain.render result

end CodeOutline
