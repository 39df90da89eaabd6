import CodeOutline.Parsing.Parser
import CodeOutline.Script.Declared
import CodeOutline.Script.Lexer
import CodeOutline.Script.ParseTree

namespace CodeOutline.Script

open Grammar Parsing

def isNamedSymbol (symbol : Nat) : Bool :=
  match table.tokens[symbol]? with
  | some terminal => terminal.isNamed
  | none => true

/-- How a part is called in the phrase around it. -/
def labelOf (part : Part) (field : Option String) (title : Option Title) : ParseLabel :=
  let isError := part.symbol = table.errorSymbol
  { kind := if isError then "ERROR" else (title.map Title.kind).getD (table.symbol part.symbol).kind
    named := isError || (title.map Title.named).getD (isNamedSymbol part.symbol)
    field := field
    start := part.start
    stop := part.stop.point
    isError := isError
    isMissing := part.isMissing }

/-- The fields and titles that a production gives to the parts of a phrase. -/
def stepsOf (part : Part) : List (Option String × Option Title) :=
  (part.production.map fun index => (table.production index).steps.toList).getD []

mutual

/-- The nodes that a phrase stands for, before those that follow. A phrase that is not seen stands
for its parts, which fill its field unless they fill one of their own. -/
def nodesOf (field : Option String) (title : Option Title) (after : List ParseTree) :
    Phrase → List ParseTree
  | .node part parts =>
    if table.isSeen part.symbol || title.isSome then
      .node (labelOf part field title) (nodesOfAll none (stepsOf part) [] parts) :: after
    else nodesOfAll field (stepsOf part) after parts

def nodesOfAll (outer : Option String) (steps : List (Option String × Option Title))
    (after : List ParseTree) : List Phrase → List ParseTree
  | [] => after
  | part :: parts =>
    if part.isExtra then nodesOf none none (nodesOfAll outer steps after parts) part
    else
      let (field, title) := steps.headD (none, none)
      nodesOf (field <|> outer) title (nodesOfAll outer steps.tail after parts) part

end

/-- The tree of a script. -/
def parse (text : String) : ParseTree :=
  let cursor := Cursor.ofText text
  let stop := (cursor.skip cursor.rest.length).point
  let whole := (Parsing.parse table scriptLexer cursor).map (nodesOf none none [])
  ((whole.getD []).head?).getD (.node ⟨"ERROR", true, none, cursor.point, stop, true, false⟩ [])

end CodeOutline.Script

namespace CodeOutline.Script

def syntaxTree (text : String) : Option ScriptNode :=
  (parse text).describeAll (.ofString text)

def symbolTable (text : String) : SymbolTable :=
  SymbolTable.empty.registerAll (declared (.ofString text) (parse text))

/-- The symbol table, unless the codes of a declared name add up to more than an address can be
computed from. -/
def symbolTable? (text : String) : Option SymbolTable :=
  if (declared (.ofString text) (parse text)).all fun entry => PseudoAddress.fits entry.1 then
    some (symbolTable text)
  else none

def syntaxErrors (text : String) : List Diagnostic :=
  ParseTree.errors (.ofString text) [parse text]

end CodeOutline.Script
