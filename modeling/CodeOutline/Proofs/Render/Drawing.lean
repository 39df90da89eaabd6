import CodeOutline.Proofs.Render.Statement
import CodeOutline.Proofs.Tree.Row

namespace CodeOutline

open Text (IsLine)

namespace Dot

structure Drawing where
  /-- The labels of the nodes with their numbers. -/
  nodes : List (Nat × String)
  edges : List Edge
  deriving DecidableEq, Repr

namespace Drawing

def ofStatements (statements : List Statement) : Drawing where
  nodes := statements.filterMap Statement.node?
  edges := statements.filterMap Statement.edge?

/-- The lines between the header and the closing brace. -/
def body? (lines : List String) : Option (List String) :=
  if header <+: lines ∧ lines.getLast? = some "\x7d" then
    some (lines.drop header.length).dropLast
  else none

/-- The drawing that a text describes. -/
def read? (text : String) : Option Drawing :=
  (body? (Text.lines text)).bind fun lines => (lines.mapM Statement.read?).map ofStatements

/-- A node as it is drawn, with the label of the edge from its parent and its own. -/
def lay (drawing : Drawing) (node : Nat × String) : Tree.Laid (Option String × String) :=
  let arrow := drawing.edges.find? fun arrow => arrow.child = node.1
  ⟨(arrow.map Edge.label, node.2), arrow.map Edge.parent, #[]⟩

/-- The tree that is drawn. -/
def tree? (drawing : Drawing) : Option (Tree (Option String × String)) :=
  Tree.assemble (drawing.nodes.map drawing.lay).toArray

end Drawing

section

variable {α : Type} (look : α → Look) (edge : α → String)

/-- The lines of a node, given the place of its parent and its own. -/
def written (row : (Option Nat × α) × Nat) : List String :=
  nodeStatement row.2 (look row.1.2) ::
    row.1.1.toList.map fun parent => edgeStatement parent row.2 (edge row.1.2)

theorem statementsAll_eq {trees : List (Tree α)} (h : ∀ tree ∈ trees, ∀ parent number,
      statements look edge parent number tree =
        (((tree.entries parent number).zipIdx number).flatMap (written look edge),
          number + tree.size))
    (parent number : Nat) : statementsAll look edge parent number trees =
      (((Tree.entriesAll parent number trees).zipIdx number).flatMap (written look edge),
        number + Tree.sizeAll trees) := by
  induction trees generalizing number with
  | nil => rfl
  | cons tree others ih =>
    rw [List.forall_mem_cons] at h
    simp only [statementsAll, h.1, ih h.2, Tree.entriesAll, List.zipIdx_append,
      List.flatMap_append, Tree.length_entries, Tree.sizeAll_cons, Nat.add_assoc]

theorem statements_eq (tree : Tree α) (parent : Option Nat) (number : Nat) :
    statements look edge parent number tree =
      (((tree.entries parent number).zipIdx number).flatMap (written look edge),
        number + tree.size) := by
  induction tree using Tree.induct generalizing parent number with
  | h label children ih =>
    simp only [statements, statementsAll_eq look edge ih, Tree.entries, List.zipIdx_cons,
      List.flatMap_cons, Tree.size_node, Nat.add_assoc, Nat.add_comm 1]
    rfl

/-- What the lines of a node say. -/
def said (row : (Option Nat × α) × Nat) : List Statement :=
  .node row.2 (look row.1.2) ::
    row.1.1.toList.map fun parent => .edge ⟨parent, row.2, edge row.1.2⟩

/-- The edges to the nodes in a row. -/
def edgesOf (rows : List ((Option Nat × α) × Nat)) : List Edge :=
  rows.flatMap fun row => row.1.1.toList.map fun parent => ⟨parent, row.2, edge row.1.2⟩

end

section

variable {α : Type} {look : α → Look} {edge : α → String}

theorem mapM_written (hl : ∀ label, (look label).IsPlain) {row : (Option Nat × α) × Nat}
    (h : IsBare (edge row.1.2)) :
    (written look edge row).mapM Statement.read? = some (said look edge row) := by
  obtain ⟨⟨parent, label⟩, number⟩ := row
  have hnode := Statement.read?_nodeStatement number (hl label)
  cases parent with
  | none => simp [written, said, hnode]
  | some parent => simp [written, said, hnode, Statement.read?_edgeStatement _ _ h]

variable {rows : List ((Option Nat × α) × Nat)}

theorem mapM_flatMap (hl : ∀ label, (look label).IsPlain)
    (h : ∀ row ∈ rows, IsBare (edge row.1.2)) :
    (rows.flatMap (written look edge)).mapM Statement.read? =
      some (rows.flatMap (said look edge)) := by
  induction rows with
  | nil => rfl
  | cons row rows ih =>
    rw [List.forall_mem_cons] at h
    simp [List.mapM_append, mapM_written hl h.1, ih h.2]

theorem isLine_of_mem_written (hl : ∀ label, (look label).IsPlain)
    (h : ∀ row ∈ rows, IsBare (edge row.1.2)) :
    ∀ line ∈ rows.flatMap (written look edge), IsLine line := by
  intro line hm
  obtain ⟨row, hr, hm⟩ := List.mem_flatMap.1 hm
  rcases List.mem_cons.1 hm with rfl | hm
  · exact isLine_nodeStatement _ (hl _)
  · obtain ⟨parent, _, rfl⟩ := List.mem_map.1 hm
    exact isLine_edgeStatement _ _ (h row hr)

theorem filterMap_said (row : (Option Nat × α) × Nat) :
    (said look edge row).filterMap Statement.node? = [(row.2, (look row.1.2).label)] ∧
      (said look edge row).filterMap Statement.edge? =
        row.1.1.toList.map fun parent => ⟨parent, row.2, edge row.1.2⟩ := by
  obtain ⟨⟨parent, label⟩, number⟩ := row
  cases parent <;> exact ⟨rfl, rfl⟩

theorem ofStatements_said (rows : List ((Option Nat × α) × Nat)) :
    Drawing.ofStatements (rows.flatMap (said look edge)) =
      ⟨rows.map fun row => (row.2, (look row.1.2).label), edgesOf edge rows⟩ := by
  simp only [Drawing.ofStatements, List.filterMap_flatMap, filterMap_said, List.map_eq_flatMap,
    edgesOf]

/-- A drawing is read back. -/
theorem read?_draw (hl : ∀ label, (look label).IsPlain) {tree : Tree α}
    (h : ∀ label ∈ tree.walk, IsBare (edge label)) : Drawing.read? (draw look edge tree) =
      some ⟨(tree.entries none 0).zipIdx.map fun row => (row.2, (look row.1.2).label),
        edgesOf edge (tree.entries none 0).zipIdx⟩ := by
  have hbare : ∀ row ∈ (tree.entries none 0).zipIdx, IsBare (edge row.1.2) := by
    intro row hr
    apply h
    rw [← Tree.map_snd_entries tree none 0]
    exact List.mem_map_of_mem (List.fst_mem_of_mem_zipIdx hr)
  have hheader : ∀ line ∈ header, IsLine line := by decide
  have hlines := List.forall_mem_append.2 ⟨hheader, isLine_of_mem_written hl hbare⟩
  rw [Drawing.read?, draw, statements_eq,
    Text.lines_intercalate hlines (by decide) (by decide), Drawing.body?, if_pos]
  · rw [List.append_assoc, List.drop_left, List.dropLast_concat, Option.bind_some,
      mapM_flatMap hl hbare, Option.map_some, ofStatements_said]
  · refine ⟨?_, List.getLast?_concat⟩
    rw [List.append_assoc]
    exact List.prefix_append _ _

variable {entries : List (Option Nat × α)} {first : Nat}

theorem le_child_of_mem_edgesOf {arrow : Edge} (h : arrow ∈ edgesOf edge (entries.zipIdx first)) :
    first ≤ arrow.child := by
  obtain ⟨row, hr, hm⟩ := List.mem_flatMap.1 h
  obtain ⟨parent, _, rfl⟩ := List.mem_map.1 hm
  exact List.le_snd_of_mem_zipIdx hr

theorem find?_edgesOf {row : (Option Nat × α) × Nat} (h : row ∈ entries.zipIdx first) :
    (edgesOf edge (entries.zipIdx first)).find? (fun arrow => arrow.child = row.2) =
      row.1.1.map fun parent => ⟨parent, row.2, edge row.1.2⟩ := by
  induction entries generalizing first with
  | nil => exact absurd h List.not_mem_nil
  | cons entry entries ih =>
    rw [List.zipIdx_cons, List.mem_cons] at h
    rw [List.zipIdx_cons, edgesOf, List.flatMap_cons, List.find?_append, ← edgesOf]
    rcases h with rfl | h
    · have hrest : (edgesOf edge (entries.zipIdx (first + 1))).find? (fun arrow =>
          arrow.child = first) = none := by
        rw [List.find?_eq_none]
        intro arrow hm
        have hle := le_child_of_mem_edgesOf hm
        exact fun he => absurd (of_decide_eq_true he) (by omega)
      rw [hrest, Option.or_none]
      cases entry.1 <;> simp
    · have hlt := List.le_snd_of_mem_zipIdx h
      have hhead : (entry.1.toList.map fun parent =>
          Edge.mk parent first (edge entry.2)).find? (fun arrow => arrow.child = row.2) =
            none := by
        rw [List.find?_eq_none]
        intro arrow hm
        obtain ⟨parent, _, rfl⟩ := List.mem_map.1 hm
        exact fun he => Nat.ne_of_lt hlt (of_decide_eq_true he)
      rw [hhead, Option.none_or, ih h]

theorem map_child_edgesOf (h : ∀ entry ∈ entries, entry.1.isSome) :
    (edgesOf edge (entries.zipIdx first)).map Edge.child = List.range' first entries.length := by
  induction entries generalizing first with
  | nil => rfl
  | cons entry entries ih =>
    rw [List.forall_mem_cons] at h
    obtain ⟨parent, hp⟩ := Option.isSome_iff_exists.1 h.1
    rw [List.zipIdx_cons, edgesOf, List.flatMap_cons, List.map_append, ← edgesOf, ih h.2, hp]
    rfl

end

/-- A tree as it is drawn: a node has the label of the edge from its parent and its own. -/
def shown {α : Type} (text edge : α → String) (tree : Tree α) : Tree (Option String × String) :=
  (tree.map fun label => (some (edge label), text label)).relabel fun label => (none, label.2)

/-- Whether a drawing shows a tree: the nodes are numbered in pre-order, each but the root has the
edge from its parent, and the tree can be put together again. -/
structure Drawing.Shows {α : Type} (text edge : α → String) (tree : Tree α) (drawing : Drawing) :
    Prop where
  nodes : drawing.nodes = tree.walk.zipIdx.map fun (label, number) => (number, text label)
  size : drawing.nodes.length = tree.size
  edges : drawing.edges = (tree.entries none 0).zipIdx.flatMap fun ((parent, label), number) =>
    parent.toList.map fun parent => ⟨parent, number, edge label⟩
  children : drawing.edges.map Edge.child = List.range' 1 (tree.size - 1)
  tree : drawing.tree? = some (shown text edge tree)

section

variable {α : Type} {text edge : α → String}

theorem entries_shown (tree : Tree α) : (shown text edge tree).entries none 0 =
    (tree.entries none 0).map fun entry =>
      (entry.1, (entry.1.map fun _ => edge entry.2, text entry.2)) := by
  obtain ⟨label, children⟩ := tree
  have hchildren : (Tree.entriesAll 0 1 children).map (fun entry =>
      (entry.1, (entry.1.map fun _ => edge entry.2, text entry.2))) =
        (Tree.entriesAll 0 1 children).map (Prod.map id fun label =>
          (some (edge label), text label)) := by
    refine List.map_congr_left fun entry hm => ?_
    obtain ⟨parent, hp⟩ := Option.isSome_iff_exists.1 (Tree.isSome_of_mem_children hm)
    rw [hp]
    exact Prod.ext hp.symm rfl
  rw [shown, Tree.map_node, Tree.relabel, Tree.entries, Tree.entries, List.map_cons, hchildren,
    Tree.entriesAll_map fun child _ => Tree.entries_map _ child]
  rfl

/-- What a drawing says of a tree is enough to put the tree together. -/
theorem tree?_eq (tree : Tree α) :
    Drawing.tree? ⟨(tree.entries none 0).zipIdx.map fun row => (row.2, text row.1.2),
      edgesOf edge (tree.entries none 0).zipIdx⟩ = some (shown text edge tree) := by
  let drawing : Drawing := ⟨(tree.entries none 0).zipIdx.map fun row => (row.2, text row.1.2),
    edgesOf edge (tree.entries none 0).zipIdx⟩
  let laid (entry : Option Nat × α) : Tree.Laid (Option String × String) :=
    .ofEntry (entry.1, (entry.1.map fun _ => edge entry.2, text entry.2))
  have hrow : ∀ row ∈ (tree.entries none 0).zipIdx,
      drawing.lay (row.2, text row.1.2) = laid row.1 := by
    intro row hr
    have hfind : drawing.edges.find? (fun arrow => arrow.child = row.2) =
        row.1.1.map fun parent => ⟨parent, row.2, edge row.1.2⟩ := find?_edgesOf hr
    obtain ⟨⟨parent, label⟩, number⟩ := row
    rw [Drawing.lay, hfind]
    cases parent <;> rfl
  have hnodes : drawing.nodes.map drawing.lay =
      ((shown text edge tree).entries none 0).map Tree.Laid.ofEntry := by
    calc drawing.nodes.map drawing.lay
      _ = (tree.entries none 0).zipIdx.map (laid ∘ Prod.fst) := by
        rw [List.map_map]
        exact List.map_congr_left hrow
      _ = (tree.entries none 0).map laid := by rw [← List.map_map, List.zipIdx_map_fst]
      _ = ((shown text edge tree).entries none 0).map Tree.Laid.ofEntry := by
        rw [entries_shown, List.map_map]
        rfl
  exact (congrArg (fun nodes => Tree.assemble nodes.toArray) hnodes).trans
    (Tree.assemble_entries (shown text edge tree))

theorem map_child_entries (tree : Tree α) :
    (edgesOf edge (tree.entries none 0).zipIdx).map Edge.child = List.range' 1 (tree.size - 1) := by
  have hlength := Tree.length_entries tree none 0
  obtain ⟨label, children⟩ := tree
  rw [Tree.entries, List.length_cons] at hlength
  have hchildren : (edgesOf edge ((Tree.entriesAll 0 1 children).zipIdx 1)).map Edge.child =
      List.range' 1 (Tree.entriesAll 0 1 children).length :=
    map_child_edgesOf fun entry hm => Tree.isSome_of_mem_children hm
  rw [← hlength, Nat.add_sub_cancel, ← hchildren]
  rfl

theorem exists_shows {look : α → Look} (hl : ∀ label, (look label).IsPlain)
    (ht : ∀ label, (look label).label = text label) {tree : Tree α}
    (h : ∀ label ∈ tree.walk, IsBare (edge label)) :
    ∃ drawing, Drawing.read? (draw look edge tree) = some drawing ∧
      drawing.Shows text edge tree := by
  refine ⟨_, read?_draw hl h, ?_⟩
  simp only [ht]
  refine ⟨?_, ?_, rfl, ?_, tree?_eq tree⟩
  · rw [← Tree.map_snd_entries tree none 0, List.zipIdx_map, List.map_map]
    rfl
  · rw [List.length_map, List.length_zipIdx, Tree.length_entries]
  · exact map_child_entries tree

end

theorem isPlain_nodeLook (label : NodeLabel) : (nodeLook label).IsPlain := by
  obtain ⟨kind, relation, name, rawText, location, offset⟩ := label
  cases kind <;> constructor <;> dsimp only [nodeLook] <;> decide

theorem isPlain_scriptLook (label : ScriptLabel) : (scriptLook label).IsPlain := by
  rw [scriptLook]
  split <;> constructor <;> dsimp only <;> decide

theorem label_scriptLook (label : ScriptLabel) : (scriptLook label).label = scriptText label := by
  rw [scriptLook]
  split <;> rfl

theorem isBare_relation (relation : Relation) : IsBare relation.label := by
  cases relation <;> decide

theorem isBare_of_isWord {field : String} (h : field.toList.all CharClass.isWord) :
    IsBare field := by
  have hspecial : CharClass.isWord '\\' = false ∧ CharClass.isWord '"' = false ∧
      CharClass.isWord '\n' = false := by decide
  intro c hc
  have hword := List.all_eq_true.1 h c hc
  rw [escape, if_neg, if_neg, if_neg]
  · rintro rfl
    exact Bool.false_ne_true (hspecial.2.2.symm.trans hword)
  · rintro rfl
    exact Bool.false_ne_true (hspecial.2.1.symm.trans hword)
  · rintro rfl
    exact Bool.false_ne_true (hspecial.1.symm.trans hword)

theorem isBare_field {label : ScriptLabel}
    (h : ∀ field ∈ label.field, field.toList.all CharClass.isWord) :
    IsBare (scriptEdge label) := by
  rw [scriptEdge]
  cases hf : label.field with
  | none => decide
  | some field => exact isBare_of_isWord (h field hf)

/-- A drawing of a tree has a statement for each node, with its place in pre-order and its kind, its
name and its text on lines of their own, and a statement for each edge, and the tree with its labels
can be read back from it. -/
theorem shows_draw :
    (∀ tree : Node, ∃ drawing, Drawing.read? (ofNode tree) = some drawing ∧
      drawing.Shows
        (fun label => "\n".intercalate
          (label.kind.name :: label.name.toList ++ label.rawText.toList))
        (fun label => label.relation.label) tree) ∧
    ∀ tree : ScriptNode,
      (∀ label ∈ tree.walk, ∀ field ∈ label.field, field.toList.all CharClass.isWord) →
      ∃ drawing, Drawing.read? (ofScript tree) = some drawing ∧
        drawing.Shows (fun label => "\n".intercalate (label.kind :: label.text.toList))
          (fun label => label.field.getD "child") tree := by
  constructor
  · intro tree
    exact exists_shows isPlain_nodeLook (fun _ => rfl) fun label _ => isBare_relation label.relation
  · intro tree h
    exact exists_shows isPlain_scriptLook label_scriptLook fun label hm => isBare_field (h label hm)

/-- A sum with a text that needs escapes, as a tree of a script. -/
def sum : ScriptNode :=
  .node ⟨"sum", none, none, ⟨1, 0⟩, ⟨1, 9⟩⟩ [
    .node ⟨"string", some "left", some "\"\\n\"", ⟨1, 0⟩, ⟨1, 4⟩⟩ [],
    .node ⟨"comment", none, some "/*\n*/", ⟨1, 4⟩, ⟨2, 2⟩⟩ []]

theorem shows_draw_sum :
    (∀ label ∈ sum.walk, ∀ field ∈ label.field, field.toList.all CharClass.isWord) ∧
    ∃ drawing, Drawing.read? (ofScript sum) = some drawing ∧
      drawing.Shows (fun label => "\n".intercalate (label.kind :: label.text.toList))
        (fun label => label.field.getD "child") sum :=
  have h : ∀ label ∈ sum.walk, ∀ field ∈ label.field, field.toList.all CharClass.isWord := by
    decide
  ⟨h, shows_draw.2 sum h⟩

end Dot

end CodeOutline
