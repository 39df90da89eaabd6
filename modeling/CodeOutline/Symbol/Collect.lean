import CodeOutline.Outline.Statement
import CodeOutline.Symbol.Table

namespace CodeOutline

/-- A declaration found in a text, before its place is looked up. -/
structure Candidate where
  name : String
  kind : SymbolKind
  declaredType : String
  scope : Scope
  offset : Nat
  parameters : Option (List String)
  deriving DecidableEq, Repr

namespace Candidate

def ofVariable (scope : Scope) (declaration : Declaration) : Candidate :=
  ⟨declaration.name, .variable, declaration.declaredType, scope, declaration.nameOffset, none⟩

/-- A function and its parameters. -/
def ofFunction (function : FunctionDefinition) : List Candidate :=
  ⟨function.name, .function, function.returnType, .global, function.nameOffset,
      some function.parameterNames⟩ ::
    function.parameters.map fun parameter =>
      ⟨parameter.name, .parameter, parameter.declaredType, .function function.name,
        parameter.offset, none⟩

/-- The declaration that a statement makes, be it in the first clause of a `for` heading. -/
def local? (statement : Slice) : Option Declaration :=
  (Declaration.read? statement).or <|
    statement.heading?.bind fun heading =>
      if heading.name.text = "for" then heading.inner.next?.bind Declaration.read? else none

/-- The declarations at any depth of a function body. -/
def locals (function : FunctionDefinition) : List Declaration :=
  (function.body.statementStarts .nested).filterMap fun start =>
    local? (function.body.fromOffset start)

def scopeAt (functions : List FunctionDefinition) (offset : Nat) : Scope :=
  match (Extent.innermost? (functions.map (·.extent)) offset).bind (functions[·]?) with
  | some function => .function function.name
  | none => .global

/-- Every declaration of a masked text, in the order of the identifiers. -/
def collect (text : Slice) : List Candidate :=
  let functions := FunctionDefinition.findAll text
  let globals := (Declaration.findGlobals text functions).map (ofVariable .global)
  let locals := (functions.flatMap locals).map fun declaration =>
    ofVariable (scopeAt functions declaration.nameOffset) declaration
  (functions.flatMap ofFunction ++ globals ++ locals).mergeSort fun left right =>
    left.offset ≤ right.offset

def entry (source : Source) (candidate : Candidate) : String × SymbolEntry :=
  let location := source.locate candidate.offset
  (candidate.name, {
    kind := candidate.kind
    declaredType := candidate.declaredType
    scope := candidate.scope
    line := location.line
    column := location.column
    parameters := candidate.parameters
    pseudoAddress := PseudoAddress.ofName candidate.name candidate.scope
    offset := candidate.offset })

end Candidate

def Source.symbols (source : Source) : SymbolTable :=
  SymbolTable.empty.registerAll ((Candidate.collect source.view).map (Candidate.entry source))

def symbolTable (text : String) : SymbolTable :=
  (Source.ofString text).symbols

/-- The symbol table, unless the codes of a declared name add up to more than an address can be
computed from. -/
def symbolTable? (text : String) : Option SymbolTable :=
  let source := Source.ofString text
  if (Candidate.collect source.view).all fun candidate => PseudoAddress.fits candidate.name then
    some source.symbols
  else none

end CodeOutline
