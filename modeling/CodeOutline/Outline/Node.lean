import CodeOutline.Source.Basic
import CodeOutline.Tree.Basic

/-!
Nodes of the structural tree. An item is a node as it is recognised in the masked text; a node label
is what is shown of it, with its location and the text it stands for.
-/

namespace CodeOutline

inductive NodeKind where
  | program
  | functionDeclaration
  | parameter
  | variableDeclaration
  | initializer
  | blockStatement
  | ifStatement
  | forStatement
  | whileStatement
  | returnStatement
  | callExpression
  | argument
  | initialization
  | test
  | update
  | binaryExpression
  deriving DecidableEq, Repr

def NodeKind.name : NodeKind → String
  | .program => "Program"
  | .functionDeclaration => "FunctionDeclaration"
  | .parameter => "Parameter"
  | .variableDeclaration => "VariableDeclaration"
  | .initializer => "Initializer"
  | .blockStatement => "BlockStatement"
  | .ifStatement => "IfStatement"
  | .forStatement => "ForStatement"
  | .whileStatement => "WhileStatement"
  | .returnStatement => "ReturnStatement"
  | .callExpression => "CallExpression"
  | .argument => "Argument"
  | .initialization => "Initialization"
  | .test => "Test"
  | .update => "Update"
  | .binaryExpression => "BinaryExpression"

def NodeKind.all : List NodeKind :=
  [.program, .functionDeclaration, .parameter, .variableDeclaration, .initializer, .blockStatement,
    .ifStatement, .forStatement, .whileStatement, .returnStatement, .callExpression, .argument,
    .initialization, .test, .update, .binaryExpression]

/-- How a node hangs off its parent. -/
inductive Relation where
  | root
  | item
  | param
  | body
  | statement
  | initializer
  | condition
  | consequent
  | alternative
  | init
  | test
  | update
  | argument
  | call
  deriving DecidableEq, Repr

def Relation.label : Relation → String
  | .root => "root"
  | .item => "item"
  | .param => "param"
  | .body => "body"
  | .statement => "statement"
  | .initializer => "initializer"
  | .condition => "condition"
  | .consequent => "then"
  | .alternative => "else"
  | .init => "init"
  | .test => "test"
  | .update => "update"
  | .argument => "argument"
  | .call => "call"

/-- The text that an item stands for. -/
inductive Wording where
  | absent
  /-- Words taken from the masked text. -/
  | words (text : String)
  /-- What the text itself has at the place of a slice, if the slice is not blank. -/
  | quoted (slice : Slice)
  deriving DecidableEq, Repr

/-- A node as it is found in the masked text. -/
structure Item where
  kind : NodeKind
  relation : Relation
  offset : Nat
  name : Option String
  wording : Wording
  deriving DecidableEq, Repr

abbrev Outline := Tree Item

/-- A node as it is shown. -/
structure NodeLabel where
  kind : NodeKind
  relation : Relation
  name : Option String
  rawText : Option String
  location : Location
  /-- Where in the text the node comes from. -/
  offset : Nat
  deriving DecidableEq, Repr

abbrev Node := Tree NodeLabel

namespace Source

def wording (source : Source) : Wording → Option String
  | .absent => none
  | .words text => some text
  | .quoted slice => source.fragment? slice

/-- Gives an item its location and its text. -/
def describe (source : Source) (item : Item) : NodeLabel where
  kind := item.kind
  relation := item.relation
  name := item.name
  rawText := source.wording item.wording
  location := source.locate item.offset
  offset := item.offset

end Source

end CodeOutline
