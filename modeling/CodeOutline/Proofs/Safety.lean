import CodeOutline.Proofs.Checked.Level
import CodeOutline.Proofs.Delimiter.Heads
import CodeOutline.Proofs.Source.Append

namespace CodeOutline

open Slice (IsPart IsTail IsWhole)

variable {text : String} {slice : Slice}

theorem FunctionDefinition.isWhole_body {chars : List Char} (h : IsWhole chars slice)
    {function : FunctionDefinition} (hf : read? slice = some function) :
    IsWhole chars function.body := by
  rw [read?, Option.bind_eq_some_iff] at hf
  obtain ⟨declarator, hd, hf⟩ := hf
  obtain ⟨_, _, hrest, _⟩ := Declarator.read?_spec hd
  simp only at hf
  split at hf
  · next hs =>
    obtain ⟨⟨entries, after⟩, hb, hf⟩ := Option.bind_eq_some_iff.1 hf
    have hlist := h.of_startsWith ((Slice.isTail_skipSpace _).trans hrest) (by decide) hs
    have hbraced := (hlist.block? hb).2.skipBlank
    obtain ⟨hopen, he⟩ := Option.ite_none_right_eq_some.1 hf
    cases he
    simp only
    cases hbody : after.skipBlank.block? with
    | none => exact hbraced.drop_one (by decide) hopen
    | some found => exact (hbraced.block? hbody).1
  · cases hf

namespace Checked

theorem parameterNode_eq (parameter : Parameter) :
    parameterNode (Source.ofString text) parameter =
      .ok (described text (Outline.ofParameter parameter)) := by
  rw [parameterNode, node_eq, Outline.ofParameter, described, Tree.map_node, Source.describe]
  split <;> rfl

theorem functionNode_eq {function : FunctionDefinition}
    (h : IsWhole (maskedChars text) function.body) :
    functionNode (Source.ofString text) function.shape =
      .ok (described text (Outline.ofFunction function)) := by
  have hparameters : function.parameters.mapM (parameterNode (Source.ofString text)) =
      .ok (function.parameters.map fun parameter =>
        described text (Outline.ofParameter parameter)) :=
    mapM_ok fun parameter _ => parameterNode_eq parameter
  have hbody : (level (Source.ofString text) maxNesting).block function.body.span =
      .ok ((Outline.ofBlock function.body).map (described text)) :=
    (level_agrees text maxNesting).block h
  simp only [functionNode, FunctionDefinition.shape, hparameters, hbody, ok_bind, node_eq,
    Outline.ofFunction, described, Tree.map_node, List.map_append, List.map_cons, List.map_nil,
    List.map_map]
  rfl

theorem readAll_eq {α β : Type} {read : Nat → Nat → Checked (Option β)} {read' : Slice → Option α}
    {shape : α → β} (h : ∀ slice, IsWhole (maskedChars text) slice →
      read slice.start slice.stop = .ok ((read' slice).map shape)) :
    readAll (Source.ofString text) read =
      .ok (((Source.ofString text).view.heads .topLevel).filterMap read' |>.map shape) := by
  have hwhole := Slice.isWhole_laid (maskedChars text)
  have hsize : (Source.ofString text).size = (Source.ofString text).view.stop :=
    (Source.length_cells text).trans (Source.stop_view text).symm
  have hread : ∀ head ∈ (Source.ofString text).view.heads .topLevel,
      read head.start (Source.ofString text).size = .ok ((read' head).map shape) := by
    intro head hm
    rw [hsize, ← (Slice.isTail_of_mem_heads hm).stop_eq]
    exact h head (hwhole.heads hm)
  rw [readAll, ← Slice.map_start_heads, mapM_map_ok hread, ok_bind, reduceOption_map,
    List.map_filterMap]
  rfl

theorem functions_eq (text : String) :
    readAll (Source.ofString text) (function (Source.ofString text)) =
      .ok ((FunctionDefinition.findAll (Source.ofString text).view).map
        FunctionDefinition.shape) := by
  rw [readAll_eq fun _ => function_eq, FunctionDefinition.findAll, Slice.filterMap_statementStarts]

theorem findGlobals_eq (text : String) (functions : List FunctionDefinition) :
    findGlobals (Source.ofString text) (functions.map FunctionDefinition.shape) =
      .ok ((Declaration.findGlobals (Source.ofString text).view functions).map
        Declaration.shape) := by
  rw [findGlobals, readAll_eq fun _ => declaration_eq, ok_bind, Declaration.findGlobals,
    Slice.filterMap_statementStarts, List.filter_map]
  simp only [List.any_map]
  rfl

theorem functionNodes_eq (text : String) :
    ((FunctionDefinition.findAll (Source.ofString text).view).map FunctionDefinition.shape).mapM
        (functionNode (Source.ofString text)) =
      .ok ((FunctionDefinition.findAll (Source.ofString text).view).map fun function =>
        described text (Outline.ofFunction function)) := by
  refine mapM_map_ok fun function hm => functionNode_eq ?_
  rw [FunctionDefinition.findAll, Slice.filterMap_statementStarts] at hm
  obtain ⟨head, hhead, hf⟩ := List.mem_filterMap.1 hm
  exact FunctionDefinition.isWhole_body ((Slice.isWhole_laid _).heads hhead) hf

theorem globalNodes_eq (text : String) (functions : List FunctionDefinition) :
    ((Declaration.findGlobals (Source.ofString text).view functions).map Declaration.shape).mapM
        (declarationNode (Source.ofString text) .item) =
      .ok ((Declaration.findGlobals (Source.ofString text).view functions).map fun declaration =>
        described text (Outline.ofDeclaration .item declaration)) := by
  refine mapM_map_ok fun declaration hm => declarationNode_eq ?_
  rw [Declaration.findGlobals, Slice.filterMap_statementStarts] at hm
  obtain ⟨head, hhead, hd⟩ := List.mem_filterMap.1 (List.mem_of_mem_filter hm)
  exact isWhole_initializer ((Slice.isWhole_laid _).heads hhead) hd

theorem mergeSort_described (text : String) (items : List Outline) :
    ((items.map (described text)).mergeSort fun left right =>
      left.label.offset ≤ right.label.offset) =
      (items.mergeSort fun left right => left.label.offset ≤ right.label.offset).map
        (described text) := by
  refine (List.map_mergeSort fun left _ right _ => ?_).symm
  cases left
  cases right
  simp only [described, Tree.map_node]
  rfl

end Checked

/-- Every text has a structural tree: no byte is read beyond the text, and no stretch is cut out of
the text or of its masked form that is out of order, out of bounds or ends inside a character. -/
theorem checkedTree_eq (text : String) :
    Checked.tree (Source.ofString text) = .ok (structuralTree text) ∧
      (structuralTree text).label.kind = .program := by
  have hlabel : (structuralTree text).label.kind = .program := by
    rw [structuralTree, Source.tree, Outline.ofText, Tree.map_node]
    rfl
  refine ⟨?_, hlabel⟩
  have hsort := Checked.mergeSort_described text
    ((FunctionDefinition.findAll (Source.ofString text).view).map Outline.ofFunction ++
      (Declaration.findGlobals (Source.ofString text).view
        (FunctionDefinition.findAll (Source.ofString text).view)).map
          (Outline.ofDeclaration .item))
  rw [List.map_append, List.map_map, List.map_map] at hsort
  simp only [Checked.tree, Checked.functions_eq, Checked.findGlobals_eq, Checked.functionNodes_eq,
    Checked.globalNodes_eq, ok_bind, Checked.node_eq, structuralTree, Source.tree,
    Outline.ofText, Tree.map_node]
  exact congrArg (fun children => Except.ok (Tree.node _ children)) hsort

end CodeOutline
