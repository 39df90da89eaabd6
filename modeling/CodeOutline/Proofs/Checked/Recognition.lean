import CodeOutline.Outline.Program
import CodeOutline.Proofs.Checked.Access

namespace CodeOutline

/-- A declaration by offsets. -/
structure DeclarationShape where
  start : Nat
  declaredType : String
  name : String
  nameOffset : Nat
  initializer : Option Span
  stop : Nat
  deriving DecidableEq, Repr

/-- A function definition by offsets. -/
structure FunctionShape where
  start : Nat
  returnType : String
  name : String
  nameOffset : Nat
  parameters : List Parameter
  opening : Nat
  closing : Option Nat
  body : Span
  deriving DecidableEq, Repr

def FunctionShape.extent (function : FunctionShape) : Extent :=
  ⟨function.opening, function.closing.getD function.body.stop⟩

namespace Checked

section

variable (source : Source)

/-- The masked text up to a limit, and the part of it from an offset on. -/
def window (start limit : Nat) : Checked (Slice × Slice) := do
  let text ← cut source.view ⟨0, limit⟩
  return (text, ← cut text ⟨start, text.stop⟩)

def declaration (start limit : Nat) : Checked (Option DeclarationShape) := do
  let (text, rest) ← window source start limit
  match Declarator.read? rest with
  | none => return none
  | some declarator =>
    let shape (initializer : Option Span) (stop : Nat) : DeclarationShape :=
      { start := start
        declaredType := Text.trim declarator.typeWords.text
        name := declarator.name.text
        nameOffset := declarator.name.start
        initializer := initializer
        stop := stop }
    let suffixed := declarator.rest.fromOffset
      (Declarator.suffixEnd false none declarator.rest.start declarator.rest.cells)
    if suffixed.startsWith '=' then
      let after := suffixed.start + 1
      return (findFrom text after limit 0x3B).map fun stop => shape (some ⟨after, stop⟩) stop
    else return (← expect text suffixed.start 0x3B).map (shape none)

/-- What an entry of a parameter list declares. -/
def parameter (index : Nat) (piece : Span) : Checked (Option Parameter) := do
  let piece ← trim source piece
  let entry ← cut source.view piece
  if Parameter.isVacant entry then return none
  else
    match Parameter.name? entry.start entry.cells with
    | some name =>
      return some ⟨name.text, ← maskedFragment source ⟨piece.start, name.start⟩, name.start⟩
    | none => return some ⟨s!"param{index}", entry.text, piece.start⟩

def parameters (list : Span) : Checked (List Parameter) := do
  let pieces ← split source.view list 0x2C
  let found ← pieces.zipIdx.mapM fun (piece, index) => parameter source index piece
  return found.reduceOption

def function (start limit : Nat) : Checked (Option FunctionShape) := do
  let (text, rest) ← window source start limit
  match Declarator.read? rest with
  | none => return none
  | some declarator =>
    let list := declarator.rest.skipSpace
    if list.startsWith '(' then
      match closing? text list.start with
      | none => return none
      | some close =>
        match ← expect text (close + 1) 0x7B with
        | none => return none
        | some opening =>
          let closing := closing? text opening
          return some {
            start := start
            returnType := Text.trim declarator.typeWords.text
            name := declarator.name.text
            nameOffset := declarator.name.start
            parameters := ← parameters source ⟨list.start + 1, close⟩
            opening := opening
            closing := closing
            body := ⟨opening + 1, closing.getD limit⟩ }
    else return none

/-- A node with its location. -/
def node (kind : NodeKind) (relation : Relation) (offset : Nat) (name rawText : Option String)
    (children : List Node) : Checked Node := do
  return .node ⟨kind, relation, name, rawText, ← locate source offset, offset⟩ children

/-- A node of a stretch, with the text of the stretch. -/
def leaf (kind : NodeKind) (relation : Relation) (span : Span) : Checked Node := do
  let offset := (← trim source span).start
  node source kind relation offset none (← fragment source span) []

def declarationNode (relation : Relation) (declaration : DeclarationShape) : Checked Node := do
  let children ← declaration.initializer.toList.mapM (leaf source .initializer .initializer)
  node source .variableDeclaration relation declaration.start (some declaration.name)
    (some declaration.declaredType) children

/-- An argument, unless it is blank. -/
def argument (piece : Span) : Checked (Option Node) := do
  let offset := (← trim source piece).start
  match ← fragment source piece with
  | none => return none
  | some rawText => return some (← node source .argument .argument offset none (some rawText) [])

/-- A call with what stands between its parentheses. -/
def callNode (relation : Relation) (name : String) (offset : Nat) (inner : Span) :
    Checked Node := do
  let pieces ← split source.view inner 0x2C
  let arguments ← pieces.mapM (argument source)
  node source .callExpression relation offset (some name) none arguments.reduceOption

/-- The first call in an expression of the given text. -/
def callFrom (text : Slice) (skipped position : Nat) : List Cell → Checked (Option Node)
  | [] => return none
  | cell :: rest =>
    match skipped with
    | skipped + 1 => callFrom text skipped (position + 1) rest
    | 0 =>
      match (Slice.mk position (cell :: rest)).opening? Outline.isCallWord with
      | none => callFrom text 0 (position + 1) rest
      | some (name, list) =>
        if Keyword.isKeyword name.text then
          callFrom text (list.start - position) (position + 1) rest
        else
          match closing? text list.start with
          | some close =>
            return some (← callNode source .call name.text name.start ⟨list.start + 1, close⟩)
          | none => callFrom text (list.start - position) (position + 1) rest

def findCall (expression : Span) : Checked (Option Node) := do
  let text ← cut source.view ⟨0, expression.stop⟩
  let value ← cut text expression
  callFrom source text 0 value.start value.cells

def returnStatement (start limit : Nat) : Checked (Option Node) := do
  let (text, rest) ← window source start limit
  match rest.after? "return" with
  | none => return none
  | some after =>
    match findFrom text after.start limit 0x3B with
    | none => return none
    | some stop =>
      let value ← trim source ⟨after.start, stop⟩
      let rawText ← fragment source value
      let call ← findCall source value
      return some (← node source .returnStatement .statement start none rawText call.toList)

end

/-- A word followed by a parenthesis that is closed: the word, and where the parenthesis opens and
closes. -/
def heading? (text rest : Slice) : Option (Slice × Nat × Nat) :=
  (rest.opening? CharClass.isWord).bind fun (name, list) =>
    (closing? text list.start).map fun close => (name, list.start, close)

/-- What stands behind an `else` that follows an offset. -/
def afterElse (text : Slice) (offset : Nat) : Checked (Option Nat) :=
  match skipFrom text offset with
  | none => return none
  | some start => return ((← cut text ⟨start, text.stop⟩).after? "else").map Slice.start

/-- Where the statement at an offset ends. -/
def statementEnd (text : Slice) (limit : Nat) : Nat → Nat → Checked (Option Nat)
  | levels, start => do
    if (← byteAt text start) = 0x7B then
      return some (((closing? text start).map (· + 1)).getD limit)
    else
      let rest ← cut text ⟨start, text.stop⟩
      let plain := (findFrom text start limit 0x3B).map (· + 1)
      match levels with
      | 0 => return plain
      | levels + 1 =>
        match heading? text rest with
        | none => return plain
        | some (name, _, close) =>
          let keyword := name.text
          if keyword = "if" ∨ keyword = "for" ∨ keyword = "while" then
            match skipFrom text (close + 1) with
            | none => return none
            | some body =>
              match ← statementEnd text limit levels body with
              | none => return none
              | some stop =>
                if keyword = "if" then
                  match (← afterElse text stop).bind (skipFrom text) with
                  | some other => statementEnd text limit levels other
                  | none => return some stop
                else return some stop
          else return plain

/-- The recognisers of one level of bodies. Beside a statement they give where it ends. -/
structure Level where
  conditional : Nat → Nat → Checked (Option (Node × Nat))
  block : Span → Checked (List Node)

section

variable (source : Source) (levels : Nat) (below : Option Level)

def callStatement (start limit : Nat) : Checked (Option Node) := do
  let (text, rest) ← window source start limit
  match heading? text rest with
  | none => return none
  | some (name, opening, close) =>
    if Keyword.isKeyword name.text then return none
    else
      match ← expect text (close + 1) 0x3B with
      | none => return none
      | some _ => return some (← callNode source .statement name.text start ⟨opening + 1, close⟩)

/-- What a body holds, and where it ends. -/
def bodySpan (text : Slice) (start limit : Nat) : Checked (Option (Span × Nat)) := do
  if (← byteAt text start) = 0x7B then
    match closing? text start with
    | some close => return some (⟨start + 1, close⟩, close + 1)
    | none => return some (⟨start + 1, limit⟩, limit)
  else return (← statementEnd text limit levels start).map fun stop => (⟨start, stop⟩, stop)

def body (relation : Relation) (offset limit : Nat) : Checked (Option (Node × Nat)) := do
  let text ← cut source.view ⟨0, limit⟩
  match skipFrom text offset with
  | none => return none
  | some start =>
    match ← bodySpan levels text start limit with
    | none => return none
    | some (inner, stop) =>
      let children ← below.elim (.ok []) (·.block inner)
      return some (← node source .blockStatement relation start none none children, stop)

/-- A conditional of the level below. -/
def chained (text : Slice) (offset limit : Nat) : Checked (Option (Node × Nat)) :=
  match below, skipFrom text offset with
  | some level, some start => level.conditional start limit
  | _, _ => .ok none

/-- The branch after an `else`. -/
def alternative (offset limit : Nat) : Checked (Option (Node × Nat)) := do
  let text ← cut source.view ⟨0, limit⟩
  match ← chained below text offset limit with
  | some (conditional, stop) =>
    return some (conditional.relabel fun label => { label with relation := .alternative }, stop)
  | none => body source levels below .alternative offset limit

/-- The branch after an `else` that follows an offset. -/
def branch (text : Slice) (offset limit : Nat) : Checked (Option (Node × Nat)) := do
  match ← afterElse text offset with
  | none => return none
  | some other => alternative source levels below other limit

def conditional (start limit : Nat) : Checked (Option (Node × Nat)) := do
  let (text, rest) ← window source start limit
  match heading? text rest with
  | none => return none
  | some (name, opening, close) =>
    if name.text = "if" then
      let condition ← leaf source .binaryExpression .condition ⟨opening + 1, close⟩
      let item (children : List Node) : Checked Node :=
        node source .ifStatement .statement start none none children
      match ← body source levels below .consequent (close + 1) limit with
      | none => return some (← item [condition], close + 1)
      | some (consequent, stop) =>
        match ← branch source levels below text stop limit with
        | none => return some (← item [condition, consequent], stop)
        | some (alternative, stop) =>
          return some (← item [condition, consequent, alternative], stop)
    else return none

/-- A loop of the given kind with the nodes of its heading. -/
def loop (kind : NodeKind) (start close limit : Nat) (header : List Node) :
    Checked (Option (Node × Nat)) := do
  match ← body source levels below .body (close + 1) limit with
  | some (body, stop) =>
    return some (← node source kind .statement start none none (header ++ [body]), stop)
  | none => return some (← node source kind .statement start none none header, close + 1)

def forLoop (start limit : Nat) : Checked (Option (Node × Nat)) := do
  let (text, rest) ← window source start limit
  match heading? text rest with
  | none => return none
  | some (name, opening, close) =>
    if name.text = "for" then
      let clauses ← split text ⟨opening + 1, close⟩ 0x3B
      let clause (index : Nat) : Span := clauses[index]?.getD ⟨close, close⟩
      let initialization ← leaf source .initialization .init (clause 0)
      let test ← leaf source .test .test (clause 1)
      let update ← leaf source .update .update (clause 2)
      loop source levels below .forStatement start close limit [initialization, test, update]
    else return none

def whileLoop (start limit : Nat) : Checked (Option (Node × Nat)) := do
  let (text, rest) ← window source start limit
  match heading? text rest with
  | none => return none
  | some (name, opening, close) =>
    if name.text = "while" then
      match ← expect text (close + 1) 0x3B with
      | some _ => return none
      | none =>
        let test ← leaf source .test .test ⟨opening + 1, close⟩
        loop source levels below .whileStatement start close limit [test]
    else return none

/-- The statement at an offset. Every recogniser is run, whether or not an earlier one succeeds. -/
def statement (start limit : Nat) : Checked (Option Node) := do
  let shape ← declaration source start limit
  let declared ← shape.mapM (declarationNode source .statement)
  let conditional ← conditional source levels below start limit
  let forLoop ← forLoop source levels below start limit
  let whileLoop ← whileLoop source levels below start limit
  let returned ← returnStatement source start limit
  let called ← callStatement source start limit
  return declared.or <| (conditional.map (·.1)).or <| (forLoop.map (·.1)).or <|
    (whileLoop.map (·.1)).or <| returned.or called

def statements (span : Span) : Checked (List Node) := do
  let block ← cut source.view span
  let found ← (block.statementStarts .topLevel).mapM fun start =>
    statement source levels below start span.stop
  return found.reduceOption

end

section

variable (source : Source)

def level : Nat → Level
  | 0 => ⟨conditional source 0 none, statements source 0 none⟩
  | levels + 1 =>
    ⟨conditional source (levels + 1) (some (level levels)),
      statements source (levels + 1) (some (level levels))⟩

def parameterNode (parameter : Parameter) : Checked Node :=
  node source .parameter .param parameter.offset (some parameter.name)
    (if parameter.declaredType.isEmpty then none else some parameter.declaredType) []

def functionNode (function : FunctionShape) : Checked Node := do
  let parameters ← function.parameters.mapM (parameterNode source)
  let statements ← (level source maxNesting).block function.body
  let body ← node source .blockStatement .body function.opening none none statements
  node source .functionDeclaration .item function.start (some function.name)
    (some function.returnType) (parameters ++ [body])

/-- What a reader finds at the statement starts of the whole text. -/
def readAll {α : Type} (read : Nat → Nat → Checked (Option α)) : Checked (List α) := do
  let found ← (source.view.statementStarts .topLevel).mapM fun start => read start source.size
  return found.reduceOption

/-- The declarations at the top of the text that no function body contains. -/
def findGlobals (functions : List FunctionShape) : Checked (List DeclarationShape) := do
  let declarations ← readAll source (declaration source)
  return declarations.filter fun declaration =>
    !functions.any fun function => function.extent.contains declaration.start

def tree : Checked Node := do
  let functions ← readAll source (function source)
  let globals ← findGlobals source functions
  let functions ← functions.mapM (functionNode source)
  let globals ← globals.mapM (declarationNode source .item)
  node source .program .root 0 none none
    ((functions ++ globals).mergeSort fun left right => left.label.offset ≤ right.label.offset)

end

end Checked

end CodeOutline
