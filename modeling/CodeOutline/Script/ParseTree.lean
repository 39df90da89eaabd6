import CodeOutline.Text.Cursor
import CodeOutline.Text.Location
import CodeOutline.Tree.Basic

namespace CodeOutline

structure ScriptLabel where
  kind : String
  /-- What the node is to its parent. -/
  field : Option String
  /-- The text of a node without children. -/
  text : Option String
  start : Location
  stop : Location
  deriving DecidableEq, Repr, Inhabited

abbrev ScriptNode := Tree ScriptLabel

end CodeOutline

namespace CodeOutline.Script

structure ParseLabel where
  kind : String
  /-- Whether the grammar gives the node a name; other nodes are bare tokens. -/
  named : Bool
  field : Option String
  start : Point
  stop : Point
  isError : Bool
  isMissing : Bool
  deriving DecidableEq, Repr, Inhabited

abbrev ParseTree := Tree ParseLabel

namespace ParseTree

def kind (tree : ParseTree) : String :=
  tree.label.kind

def start (tree : ParseTree) : Point :=
  tree.label.start

def stop (tree : ParseTree) : Point :=
  tree.label.stop

def namedChildren (tree : ParseTree) : List ParseTree :=
  tree.children.filter fun child => child.label.named

def childByField? (field : String) (tree : ParseTree) : Option ParseTree :=
  tree.children.find? fun child => child.label.field = some field

/-- Whether the tree has an error or a missing token in it. -/
def hasError (tree : ParseTree) : Bool :=
  tree.walk.any fun label => label.isError || label.isMissing

end ParseTree

end CodeOutline.Script
