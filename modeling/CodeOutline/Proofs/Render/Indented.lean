import CodeOutline.Proofs.Outline.Name
import CodeOutline.Proofs.Text.Line
import CodeOutline.Proofs.Tree.Row
import CodeOutline.Render.Format

namespace CodeOutline

open Text (IsLine isLine_append)

theorem Relation.isLine_label (relation : Relation) : IsLine relation.label := by
  cases relation <;> decide

theorem NodeKind.isLine_name (kind : NodeKind) : IsLine kind.name := by
  cases kind <;> decide

namespace Plain

theorem isLine_flat (text : String) : IsLine (flat text) := by
  refine Text.isLine_of_forall (· ≠ '\n') rfl fun c hc => ?_
  rw [flat, String.toList_ofList] at hc
  obtain ⟨d, _, rfl⟩ := List.mem_map.1 hc
  split
  · rfl
  · next hd => exact decide_eq_true hd

theorem isLine_bracketed (text : Option String) : IsLine (bracketed text) := by
  cases text with
  | none => decide
  | some text => exact isLine_append.2 ⟨isLine_append.2 ⟨by decide, isLine_flat text⟩, by decide⟩

theorem isLine_place (location : Location) : IsLine (place location) := by
  simp only [place, isLine_append, Text.isLine_toString, and_true]
  decide

theorem isLine_nodeText {label : NodeLabel} (h : ∀ name ∈ label.name, IsSpelled name) :
    IsLine (nodeText label) := by
  simp only [nodeText, isLine_append]
  refine ⟨⟨⟨label.kind.isLine_name, ?_⟩, isLine_bracketed _⟩, isLine_place _⟩
  split
  · next name hn =>
    exact isLine_append.2 ⟨isLine_append.2 ⟨by decide, (h name hn).isLine⟩, by decide⟩
  · decide

theorem isLine_line {edge text : String} (depth : Nat) (he : IsLine edge) (ht : IsLine text) :
    IsLine (line depth edge text) := by
  rw [line, isLine_append, isLine_append]
  refine ⟨⟨Text.isLine_spaces _, ?_⟩, ht⟩
  split
  · decide
  · exact isLine_append.2 ⟨he, by decide⟩

/-- Whether a text begins with a character that is not white space. -/
def BeginsBare (text : String) : Prop :=
  ∃ first rest, text.toList = first :: rest ∧ CharClass.isSpace first = false

theorem BeginsBare.append {text : String} (h : BeginsBare text) (rest : String) :
    BeginsBare (text ++ rest) := by
  obtain ⟨first, others, htext, hfirst⟩ := h
  exact ⟨first, others ++ rest.toList, by rw [String.toList_append, htext]; rfl, hfirst⟩

theorem beginsBare_kind (kind : NodeKind) : BeginsBare kind.name := by
  cases kind <;> exact ⟨_, _, rfl, by decide⟩

theorem beginsBare_relation (relation : Relation) : BeginsBare relation.label := by
  cases relation <;> exact ⟨_, _, rfl, by decide⟩

theorem beginsBare_nodeText (label : NodeLabel) : BeginsBare (nodeText label) :=
  (((beginsBare_kind label.kind).append _).append _).append _

/-- The line of a node in a tree, given its depth. -/
def rowLine (row : Nat × NodeLabel) : String :=
  line row.1 (if row.1 = 0 then "" else row.2.relation.label) (nodeText row.2)

/-- Behind its indentation, the line of a node begins with what the node is to its parent or, at the
root, with its kind. -/
theorem toList_rowLine (row : Nat × NodeLabel) :
    ∃ first rest, (rowLine row).toList = List.replicate (2 * row.1) ' ' ++ first :: rest ∧
      CharClass.isSpace first = false := by
  have hbare : BeginsBare ((if (if row.1 = 0 then "" else row.2.relation.label).isEmpty then ""
      else (if row.1 = 0 then "" else row.2.relation.label) ++ ": ") ++ nodeText row.2) := by
    split_ifs with hroot hempty
    · exact beginsBare_nodeText row.2
    · exact absurd rfl hempty
    · exact beginsBare_nodeText row.2
    · exact ((beginsBare_relation row.2.relation).append _).append _
  obtain ⟨first, rest, htext, hfirst⟩ := hbare
  refine ⟨first, rest, ?_, hfirst⟩
  rw [rowLine, line, String.append_assoc, String.toList_append, htext, Text.spaces,
    String.toList_ofList]

/-- How many spaces a line begins with. -/
def indentation (line : String) : Nat :=
  (line.toList.takeWhile (· = ' ')).length

theorem indentation_rowLine (row : Nat × NodeLabel) : indentation (rowLine row) = 2 * row.1 := by
  obtain ⟨first, rest, hline, hfirst⟩ := toList_rowLine row
  have hne : first ≠ ' ' := by
    rintro rfl
    exact absurd hfirst (by decide)
  have hrest : (first :: rest).takeWhile (· = ' ') = [] := by simp [hne]
  rw [indentation, hline, List.takeWhile_append_of_pos, hrest, List.append_nil,
    List.length_replicate]
  exact fun c hc => decide_eq_true (List.eq_of_mem_replicate hc)

theorem lines_treeText (text : String) :
    Text.lines (treeText (.outline (structuralTree text))) =
      ((structuralTree text).rows 0).map rowLine := by
  refine Text.lines_join_lines fun line hl => ?_
  obtain ⟨row, hr, rfl⟩ := List.mem_map.1 hl
  have hlabel : row.2 ∈ (structuralTree text).walk :=
    Tree.map_snd_rows 0 (structuralTree text) ▸ List.mem_map_of_mem hr
  refine isLine_line _ ?_ (isLine_nodeText fun name hn => isSpelled_structuralTree hlabel hn)
  split
  · decide
  · exact Relation.isLine_label _

/-- The tree of a text is written with one line for each node, in pre-order. A line is indented by
twice the depth of its node, so that the indentation gives back the shape of the tree. -/
theorem lines_treeText_structuralTree (text : String) :
    let tree := structuralTree text
    let found := Text.lines (treeText (.outline tree))
    found.length = tree.size ∧
    List.Forall₂ (fun row line => line = rowLine row ∧ ∃ first rest,
        line.toList = List.replicate (2 * row.1) ' ' ++ first :: rest ∧
          CharClass.isSpace first = false)
      (tree.rows 0) found ∧
    Tree.ofRows (found.map fun line => (indentation line / 2, ())) = [tree.map fun _ => ()] := by
  intro tree found
  have hfound : found = (tree.rows 0).map rowLine := lines_treeText text
  refine ⟨?_, ?_, ?_⟩
  · rw [hfound, List.length_map, Tree.length_rows]
  · rw [hfound, List.forall₂_map_right_iff]
    exact List.forall₂_same.2 fun row _ => ⟨rfl, toList_rowLine row⟩
  · have hrows : (found.map fun line => (indentation line / 2, ())) =
        (tree.map fun _ => ()).rows 0 := by
      rw [hfound, List.map_map, Tree.rows_map]
      refine List.map_congr_left fun row _ => ?_
      rw [Function.comp_apply, indentation_rowLine, Nat.mul_div_cancel_left _ (by decide)]
      rfl
    rw [hrows, Tree.ofRows_rows]

end Plain

end CodeOutline
