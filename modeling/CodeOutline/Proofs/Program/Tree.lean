import CodeOutline.Proofs.Outline.Content
import CodeOutline.Proofs.Program.Syntax

namespace CodeOutline

namespace Program

def leaf (kind : NodeKind) (relation : Relation) (text : Option String) : Tree Content :=
  .node ⟨kind, relation, none, text⟩ []

def Phrase.text (phrase : Phrase) : String :=
  phrase.expression.text

/-- The printed declaration without the white space after it. -/
def Variable.kept (declared : Variable) : List Char :=
  match declared.initializer with
  | none => declared.type.print ++ declared.name.chars
  | some phrase => declared.type.print ++ (declared.name.chars ++ (declared.gaps.print ++
      '=' :: (phrase.before.print ++ phrase.expression.chars)))

def Variable.tree (relation : Relation) (declared : Variable) : Tree Content :=
  .node ⟨.variableDeclaration, relation, some declared.name.text, some declared.type.text⟩
    (declared.initializer.toList.map fun phrase => leaf .initializer .initializer phrase.text)

def Call.tree (relation : Relation) (called : Call) : Tree Content :=
  .node ⟨.callExpression, relation, some called.name.text, none⟩
    (called.arguments.map fun phrase => leaf .argument .argument phrase.text)

def Result.tree : Result → Tree Content
  | .empty _ => .node ⟨.returnStatement, .statement, none, none⟩ []
  | .value _ phrase => .node ⟨.returnStatement, .statement, none, phrase.text⟩ []
  | .call _ _ called _ =>
    .node ⟨.returnStatement, .statement, none, some (String.ofList called.print)⟩
      [called.tree .call]

def Clause.text? : Clause → Option String
  | .blank _ => none
  | .value phrase => some phrase.text

def Init.text? : Init → Option String
  | .blank _ => none
  | .declaration _ declared => some (String.ofList declared.kept)
  | .assignment _ target gaps phrase => some (String.ofList (target.chars ++ (gaps.print ++
      '=' :: (phrase.before.print ++ phrase.expression.chars))))
  | .value phrase => some phrase.text

def Header.trees (header : Header) : List (Tree Content) :=
  [leaf .initialization .init header.init.text?, leaf .test .test header.test.text?,
    leaf .update .update header.update.text?]

def conditionalTree (relation : Relation) (guard : Guard) (body alternative : List (Tree Content)) :
    Tree Content :=
  .node ⟨.ifStatement, relation, none, none⟩
    (leaf .binaryExpression .condition guard.condition.text ::
      .node ⟨.blockStatement, .consequent, none, none⟩ body :: alternative)

mutual

def Statement.tree : Statement → Tree Content
  | .declaration declared => declared.tree .statement
  | .call called _ => called.tree .statement
  | .result given => given.tree
  | .conditional guard body alternative =>
    conditionalTree .statement guard body.trees alternative.trees
  | .forLoop header body =>
    .node ⟨.forStatement, .statement, none, none⟩
      (header.trees ++ [.node ⟨.blockStatement, .body, none, none⟩ body.trees])
  | .whileLoop guard body =>
    .node ⟨.whileStatement, .statement, none, none⟩
      [leaf .test .test guard.condition.text, .node ⟨.blockStatement, .body, none, none⟩ body.trees]

def Alternative.trees : Alternative → List (Tree Content)
  | .none => []
  | .chain _ _ _ guard body alternative =>
    [conditionalTree .alternative guard body.trees alternative.trees]
  | .block _ _ body => [.node ⟨.blockStatement, .alternative, none, none⟩ body.trees]

def Block.trees : Block → List (Tree Content)
  | .done _ => []
  | .cons _ statement rest => statement.tree :: rest.trees

end

mutual

/-- How many bodies are nested in a statement; each `else if` counts as one. -/
def Statement.nesting : Statement → Nat
  | .declaration _ => 0
  | .call _ _ => 0
  | .result _ => 0
  | .conditional _ body alternative => max (body.nesting + 1) alternative.nesting
  | .forLoop _ body => body.nesting + 1
  | .whileLoop _ body => body.nesting + 1

def Alternative.nesting : Alternative → Nat
  | .none => 0
  | .chain _ _ _ _ body alternative => max (body.nesting + 1) alternative.nesting + 1
  | .block _ _ body => body.nesting + 1

def Block.nesting : Block → Nat
  | .done _ => 0
  | .cons _ statement rest => max statement.nesting rest.nesting

end

def Formal.tree (formal : Formal) : Tree Content :=
  .node ⟨.parameter, .param, some formal.name.text, some formal.type.text⟩ []

def Function.tree (defined : Function) : Tree Content :=
  .node ⟨.functionDeclaration, .item, some defined.name.text, some defined.type.text⟩
    (defined.formals.map Formal.tree ++
      [.node ⟨.blockStatement, .body, none, none⟩ defined.body.trees])

def Member.tree : Member → Tree Content
  | .declaration declared => declared.tree .item
  | .function defined => defined.tree

def Member.nesting : Member → Nat
  | .declaration _ => 0
  | .function defined => defined.body.nesting

/-- The tree of a program, its definitions in the order of the text. -/
def tree (program : Program) : Tree Content :=
  .node ⟨.program, .root, none, none⟩ (program.members.map fun (_, member) => member.tree)

def nesting (program : Program) : Nat :=
  program.members.foldr (fun (_, member) deepest => max member.nesting deepest) 0

end Program

end CodeOutline
