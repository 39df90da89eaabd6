import CodeOutline.Diagnostic
import CodeOutline.Script.ParseTree
import CodeOutline.Text.Cursor
import CodeOutline.Text.Location
import CodeOutline.Text.Scan
import CodeOutline.Text.Slice
import CodeOutline.Tree.Basic

namespace CodeOutline.Script

/-- The text between two byte offsets, if they are in order, in bounds and not inside a character.
-/
def between? (text : Slice) (start stop : Nat) : Option String :=
  (text.between? start stop).map Slice.text

/-- The location of a byte with the given point. If the point does not fit the text, its column is
taken as it is. -/
def location (text : Slice) (byte : Nat) (point : Point) : Location :=
  ⟨point.row + 1, ((between? text (byte - point.column) byte).map String.length).getD point.column⟩

/-- The deepest level of a syntax tree. Nodes there are kept without children. -/
def deepestLevel : Nat := 256

namespace ParseTree

/-- The text at the place of a tree. -/
def textIn (text : Slice) (tree : ParseTree) : String :=
  (between? text tree.start.byte tree.stop.byte).getD ""

def describe (text : Slice) (tree : ParseTree) : ScriptLabel where
  kind := tree.kind
  field := tree.label.field
  text := if tree.namedChildren.isEmpty then some (tree.textIn text) else none
  start := location text tree.start.byte tree.start
  stop := location text tree.stop.byte tree.stop

/-- The named children of a tree at the given depth. -/
def childrenAt (depth : Nat) (tree : ParseTree) : List ParseTree :=
  if depth < deepestLevel then tree.namedChildren else []

theorem childrenAt_sublist (depth : Nat) (tree : ParseTree) :
    (tree.childrenAt depth).Sublist tree.children := by
  unfold childrenAt
  split
  · exact List.filter_sublist
  · exact List.nil_sublist _

/-- The nodes of the trees that are left to visit, each before its descendants, to stand behind
`count` others in a row. A tree to visit comes with the place of its parent and with its depth. -/
def layOut (text : Slice) (count : Nat) :
    List (Option Nat × Nat × ParseTree) → List (Tree.Laid ScriptLabel)
  | [] => []
  | (parent, depth, tree) :: pending =>
    ⟨tree.describe text, parent, #[]⟩ ::
      layOut text (count + 1) ((tree.childrenAt depth).map (some count, depth + 1, ·) ++ pending)
termination_by pending => Tree.sizeAll (pending.map fun visit => visit.2.2)
decreasing_by
  have h := Tree.sizeAll_le_of_sublist (childrenAt_sublist depth tree)
  simp only [List.map_append, List.map_map, List.map_cons, Tree.sizeAll_append, Tree.sizeAll_cons,
    Tree.size_eq tree, Function.comp_def, List.map_id']
  omega

/-- The syntax tree of a parse tree. The root fills no field. -/
def describeAll (text : Slice) (tree : ParseTree) : Option ScriptNode :=
  let root := tree.relabel fun label => { label with field := none }
  Tree.assemble (layOut text 0 [(none, 0, root)]).toArray

end ParseTree

end CodeOutline.Script

namespace CodeOutline.Script

/-- The first word of a text. -/
def firstWord (text : String) : List Char :=
  (Text.trimLeft text.toList).takeWhile (!CharClass.isSpace ·)

/-- How many characters of an unexpected word a message shows. -/
def shownLength : Nat := 24

namespace ParseTree

/-- The message of a node that is an error or missing. -/
def errorMessage? (text : Slice) (tree : ParseTree) : Option Diagnostic :=
  if tree.label.isError then
    let token := String.ofList ((firstWord (tree.textIn text)).take shownLength)
    some ⟨tree.start.row + 1, "SyntaxError: Unexpected token '" ++ token ++ "'"⟩
  else if tree.label.isMissing then
    some ⟨tree.start.row + 1, "SyntaxError: Missing '" ++ tree.kind ++ "'"⟩
  else none

/-- The messages of the trees that are left to visit. Trees without errors are passed over. -/
def errors (text : Slice) : List ParseTree → List Diagnostic
  | [] => []
  | tree :: pending =>
    match tree.errorMessage? text with
    | some message => message :: errors text pending
    | none =>
      if tree.hasError then errors text (tree.children ++ pending) else errors text pending
termination_by pending => Tree.sizeAll pending
decreasing_by
  · rw [Tree.sizeAll_cons, Tree.size_eq]
    omega
  · rw [Tree.sizeAll_append, Tree.sizeAll_cons, Tree.size_eq tree]
    omega
  · rw [Tree.sizeAll_cons, Tree.size_eq]
    omega

end ParseTree

end CodeOutline.Script
