import CodeOutline.Outline.Node
import CodeOutline.Shape.Function

namespace CodeOutline

/-- The deepest level of bodies whose statements are recognised. -/
def maxNesting : Nat := 128

/-- A word followed by a parenthesis: the parentheses' contents and what follows them. -/
structure Heading where
  name : Slice
  inner : Slice
  after : Slice
  deriving DecidableEq, Repr

namespace Slice

/-- What is left after the blanks, if anything is. -/
def next? (slice : Slice) : Option Slice :=
  if slice.skipBlank.isEmpty then none else some slice.skipBlank

/-- A word of characters of the class and, after white space, the text from a parenthesis on. -/
def opening? (cls : Char → Bool) (slice : Slice) : Option (Slice × Slice) :=
  (slice.word? cls).bind fun (name, after) =>
    let list := after.skipSpace
    if list.startsWith '(' then some (name, list) else none

/-- The heading that the slice begins with, if its parenthesis is closed. -/
def heading? (slice : Slice) : Option Heading :=
  (slice.opening? CharClass.isWord).bind fun (name, list) =>
    list.block?.map fun (inner, after) => ⟨name, inner, after⟩

/-- What follows the given word at the start of the slice. -/
def after? (word : String) (slice : Slice) : Option Slice :=
  (slice.word? CharClass.isWord).bind fun (name, after) =>
    if name.text = word then some after else none

/-- What follows the first semicolon outside brackets. -/
def pastSemicolon? (slice : Slice) : Option Slice :=
  (slice.find? 0x3B).map fun stop => slice.fromOffset (stop + 1)

end Slice

namespace Outline

def leaf (kind : NodeKind) (relation : Relation) (slice : Slice) : Outline :=
  .node ⟨kind, relation, slice.trim.start, none, .quoted slice⟩ []

/-- A variable with its type and, as a child, its initializer. -/
def ofDeclaration (relation : Relation) (declaration : Declaration) : Outline :=
  .node ⟨.variableDeclaration, relation, declaration.start, some declaration.name,
      .words declaration.declaredType⟩
    (declaration.initializer.toList.map (leaf .initializer .initializer))

/-- A call with those of its arguments that are not blank. -/
def ofCall (relation : Relation) (name inner : Slice) : Outline :=
  .node ⟨.callExpression, relation, name.start, some name.text, .absent⟩
    (((inner.split 0x2C).filter fun piece => !piece.trim.isEmpty).map (leaf .argument .argument))

def isCallWord (c : Char) : Bool :=
  CharClass.isWord c || c = '.'

/-- The first call inside an expression; `skipped` cells belong to a heading that is not one. -/
def findCall? (skipped position : Nat) : List Cell → Option Outline
  | [] => none
  | cell :: rest =>
    match skipped with
    | skipped + 1 => findCall? skipped (position + 1) rest
    | 0 =>
      match (Slice.mk position (cell :: rest)).opening? isCallWord with
      | none => findCall? 0 (position + 1) rest
      | some (name, list) =>
        if Keyword.isKeyword name.text then findCall? (list.start - position) (position + 1) rest
        else
          match list.block? with
          | some (inner, _) => some (ofCall .call name inner)
          | none => findCall? (list.start - position) (position + 1) rest

/-- A return with its value up to the semicolon and the first call in it. -/
def return? (slice : Slice) : Option Outline :=
  (slice.after? "return").bind fun rest =>
    (rest.find? 0x3B).map fun stop =>
      let value := (rest.toOffset stop).trim
      .node ⟨.returnStatement, .statement, slice.start, none, .quoted value⟩
        (findCall? 0 value.start value.cells).toList

/-- A call that a semicolon ends. -/
def callStatement? (slice : Slice) : Option Outline :=
  slice.heading?.bind fun heading =>
    if Keyword.isKeyword heading.name.text then none
    else if heading.after.skipBlank.startsWith ';' then
      some (ofCall .statement heading.name heading.inner)
    else none

/-- What follows the statement that the slice begins with. Headings reach over their body and an
`else` branch; below the last of the given levels only a semicolon ends a statement. -/
def afterStatement? (levels : Nat) (slice : Slice) : Option Slice :=
  if slice.startsWith '{' then
    match slice.block? with
    | some (_, after) => some after
    | none => some (slice.fromOffset slice.stop)
  else
    match levels with
    | 0 => slice.pastSemicolon?
    | levels + 1 =>
      match slice.heading? with
      | none => slice.pastSemicolon?
      | some heading =>
        let keyword := heading.name.text
        if keyword = "if" ∨ keyword = "for" ∨ keyword = "while" then
          (heading.after.next?.bind (afterStatement? levels)).bind fun after =>
            if keyword = "if" then
              match (after.next?.bind (Slice.after? "else")).bind Slice.next? with
              | some other => afterStatement? levels other
              | none => some after
            else some after
        else slice.pastSemicolon?

/-- The recognisers of one level of bodies. Beside a statement they give what follows it. -/
structure Level where
  conditional? : Slice → Option (Outline × Slice)
  block : Slice → List Outline

section

variable (levels : Nat) (below : Option Level)

/-- A body in braces or of a single statement. The statements in it are those of the level below. -/
def body? (relation : Relation) (slice : Slice) : Option (Outline × Slice) :=
  slice.next?.bind fun body =>
    let extent :=
      if body.startsWith '{' then
        some (body.block?.getD (body.drop 1, body.fromOffset body.stop))
      else
        (afterStatement? levels body).map fun after => (body.toOffset after.start, after)
    extent.map fun (inner, after) =>
      (.node ⟨.blockStatement, relation, body.start, none, .absent⟩
        (match below with
        | some level => level.block inner
        | none => []),
        after)

/-- The branch after an `else`: a conditional of the level below or else a body. -/
def alternative? (slice : Slice) : Option (Outline × Slice) :=
  let chained := below.bind fun level => slice.next?.bind level.conditional?
  match chained with
  | some (conditional, after) =>
    some (conditional.relabel fun item => { item with relation := .alternative }, after)
  | none => body? levels below .alternative slice

/-- A conditional with its condition and those branches that are there. -/
def conditional? (slice : Slice) : Option (Outline × Slice) :=
  slice.heading?.bind fun heading =>
    if heading.name.text = "if" then
      let item : Item := ⟨.ifStatement, .statement, slice.start, none, .absent⟩
      let condition := leaf .binaryExpression .condition heading.inner
      match body? levels below .consequent heading.after with
      | none => some (.node item [condition], heading.after)
      | some (consequent, after) =>
        match (after.next?.bind (Slice.after? "else")).bind (alternative? levels below) with
        | none => some (.node item [condition, consequent], after)
        | some (alternative, after) => some (.node item [condition, consequent, alternative], after)
    else none

/-- A loop with its three clauses; clauses that are not written are blank. -/
def forLoop? (slice : Slice) : Option (Outline × Slice) :=
  slice.heading?.bind fun heading =>
    if heading.name.text = "for" then
      let clauses := heading.inner.split 0x3B
      let clause (index : Nat) : Slice := clauses[index]?.getD ⟨heading.inner.stop, []⟩
      let item : Item := ⟨.forStatement, .statement, slice.start, none, .absent⟩
      let header := [leaf .initialization .init (clause 0), leaf .test .test (clause 1),
        leaf .update .update (clause 2)]
      match body? levels below .body heading.after with
      | some (body, after) => some (.node item (header ++ [body]), after)
      | none => some (.node item header, heading.after)
    else none

/-- A loop with its test. Before a semicolon the heading ends a `do` loop instead. -/
def whileLoop? (slice : Slice) : Option (Outline × Slice) :=
  slice.heading?.bind fun heading =>
    if heading.name.text = "while" ∧ !heading.after.skipBlank.startsWith ';' then
      let item : Item := ⟨.whileStatement, .statement, slice.start, none, .absent⟩
      let test := leaf .test .test heading.inner
      match body? levels below .body heading.after with
      | some (body, after) => some (.node item [test, body], after)
      | none => some (.node item [test], heading.after)
    else none

/-- The statement that the slice begins with. -/
def statement? (slice : Slice) : Option Outline :=
  ((Declaration.read? slice).map (ofDeclaration .statement)).or <|
    ((conditional? levels below slice).map (·.1)).or <|
    ((forLoop? levels below slice).map (·.1)).or <|
    ((whileLoop? levels below slice).map (·.1)).or <|
    (return? slice).or (callStatement? slice)

def statements (block : Slice) : List Outline :=
  (block.statementStarts .topLevel).filterMap fun start =>
    statement? levels below (block.fromOffset start)

end

/-- The level that has the given number of levels below it. -/
def level : Nat → Level
  | 0 => ⟨conditional? 0 none, statements 0 none⟩
  | levels + 1 =>
    ⟨conditional? (levels + 1) (some (level levels)), statements (levels + 1) (some (level levels))⟩

/-- The statements of a block, in the order of the text. -/
def ofBlock (block : Slice) : List Outline :=
  (level maxNesting).block block

end Outline

end CodeOutline
