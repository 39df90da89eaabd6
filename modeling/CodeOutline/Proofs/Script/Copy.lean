import CodeOutline.Proofs.Tree.Row
import CodeOutline.Script.Describe

namespace CodeOutline.Script.ParseTree

variable {text : Slice} {depth : Nat}

mutual

/-- The named nodes of a tree that stands at the given depth, down to the deepest level. A node has
the text at its place unless it has named children. -/
def copy (text : Slice) (depth : Nat) : ParseTree → ScriptNode
  | .node label children =>
    .node {
      kind := label.kind
      field := label.field
      text :=
        if children.any (·.label.named) then none
        else some ((between? text label.start.byte label.stop.byte).getD "")
      start := location text label.start.byte label.start
      stop := location text label.stop.byte label.stop }
      (if depth < deepestLevel then copyNamed text (depth + 1) children else [])

def copyNamed (text : Slice) (depth : Nat) : List ParseTree → List ScriptNode
  | [] => []
  | child :: others =>
    if child.label.named then copy text depth child :: copyNamed text depth others
    else copyNamed text depth others

end

theorem copyNamed_eq (trees : List ParseTree) :
    copyNamed text depth trees = (trees.filter (·.label.named)).map (copy text depth) := by
  induction trees with
  | nil => rfl
  | cons tree others ih =>
    rw [copyNamed, List.filter_cons]
    split
    · rw [List.map_cons, ih]
    · exact ih

theorem copy_eq (tree : ParseTree) : copy text depth tree =
    .node (tree.describe text) ((tree.childrenAt depth).map (copy text (depth + 1))) := by
  obtain ⟨label, children⟩ := tree
  have hchildren : (if depth < deepestLevel then copyNamed text (depth + 1) children else []) =
      (childrenAt depth (.node label children)).map (copy text (depth + 1)) := by
    rw [copyNamed_eq, childrenAt]
    split <;> rfl
  have hnamed : children.any (·.label.named) = !(namedChildren (.node label children)).isEmpty := by
    rw [namedChildren, Tree.children]
    cases h : children.any (·.label.named) with
    | true => simpa using h
    | false => simpa using h
  rw [copy, hchildren, hnamed, describe]
  cases (namedChildren (.node label children)).isEmpty <;> rfl

/-- A tree is laid out as the row of its copy, before what is left to visit. -/
def IsLaidOut (text : Slice) (tree : ParseTree) : Prop :=
  ∀ count parent depth pending, layOut text count ((parent, depth, tree) :: pending) =
    ((copy text depth tree).entries parent count).map Tree.Laid.ofEntry ++
      layOut text (count + (copy text depth tree).size) pending

theorem layOut_all {trees : List ParseTree} (h : ∀ tree ∈ trees, IsLaidOut text tree)
    (count parent depth : Nat) (pending : List (Option Nat × Nat × ParseTree)) :
    layOut text count (trees.map (some parent, depth, ·) ++ pending) =
      (Tree.entriesAll parent count (trees.map (copy text depth))).map Tree.Laid.ofEntry ++
        layOut text (count + Tree.sizeAll (trees.map (copy text depth))) pending := by
  induction trees generalizing count with
  | nil => rfl
  | cons tree others ih =>
    rw [List.forall_mem_cons] at h
    rw [List.map_cons, List.cons_append, h.1, ih h.2, List.map_cons, Tree.entriesAll,
      Tree.sizeAll_cons, List.map_append, List.append_assoc, Nat.add_assoc]

theorem isLaidOut (text : Slice) (tree : ParseTree) : IsLaidOut text tree := by
  induction tree using Tree.induct with
  | h label children ih =>
    intro count parent depth pending
    have hsub := childrenAt_sublist depth (.node label children)
    have hchildren := layOut_all (fun child hc => ih child (hsub.subset hc)) (count + 1) count
      (depth + 1) pending
    rw [layOut, hchildren, copy_eq, Tree.entries, Tree.size_node, List.map_cons, List.cons_append,
      Nat.add_right_comm, Nat.add_assoc]
    rfl

/-- The syntax tree of a parse tree is its copy, whose root fills no field. -/
theorem describeAll_eq_copy (text : Slice) (root : ParseTree) :
    root.describeAll text =
      some ((copy text 0 root).relabel fun label => { label with field := none }) := by
  obtain ⟨label, children⟩ := root
  let bare : ParseTree := .node { label with field := none } children
  have hbare : copy text 0 bare =
      (copy text 0 (.node label children)).relabel fun label => { label with field := none } := by
    rw [copy_eq, copy_eq]
    rfl
  calc describeAll text (.node label children)
      = Tree.assemble (layOut text 0 [(none, 0, bare)]).toArray := rfl
    _ = Tree.assemble (((copy text 0 bare).entries none 0).map Tree.Laid.ofEntry).toArray := by
      rw [isLaidOut text bare, layOut, List.append_nil]
    _ = some (copy text 0 bare) := Tree.assemble_entries _
    _ = some ((copy text 0 (.node label children)).relabel fun label =>
        { label with field := none }) := by rw [hbare]

end CodeOutline.Script.ParseTree
