import CodeOutline.Proofs.Order
import CodeOutline.Proofs.Outline.Content
import CodeOutline.Proofs.Outline.Variable
import CodeOutline.Proofs.Symbol.Invariant

namespace CodeOutline

variable {text : Slice}

namespace Candidate

theorem filter_ofFunction (function : FunctionDefinition) :
    (ofFunction function).filter (fun candidate => candidate.kind = .function) =
      [definition function] := by
  have hp : (function.parameters.map fun parameter => (⟨parameter.name, .parameter,
      parameter.declaredType, .function function.name, parameter.offset, none⟩ : Candidate)).filter
        (fun candidate => candidate.kind = .function) = [] := by
    rw [List.filter_map, List.map_eq_nil_iff, List.filter_eq_nil_iff]
    intro parameter _ hk
    exact absurd hk Bool.false_ne_true
  rw [ofFunction, List.filter_cons, hp]
  rfl

theorem filter_ofVariable (scope : Declaration → Scope) (declarations : List Declaration) :
    (declarations.map fun declaration => ofVariable (scope declaration) declaration).filter
      (fun candidate => candidate.kind = .function) = [] := by
  rw [List.filter_map, List.map_eq_nil_iff, List.filter_eq_nil_iff]
  intro declaration _ hk
  exact absurd hk Bool.false_ne_true

theorem filter_collect (hf : ∀ cell ∈ text.cells, cell.IsFaithful) :
    (collect text).filter (fun candidate => candidate.kind = .function) =
      (FunctionDefinition.findAll text).map definition := by
  apply filter_mergeSort_eq Candidate.offset
  · rw [List.filter_append, List.filter_append, filter_ofVariable fun _ => .global,
      filter_ofVariable fun declaration =>
        scopeAt (FunctionDefinition.findAll text) declaration.nameOffset,
      List.append_nil, List.append_nil, List.filter_flatMap, List.map_eq_flatMap]
    simp only [filter_ofFunction]
  · rw [List.pairwise_map]
    exact (FunctionDefinition.pairwise_findAll hf).imp And.right

end Candidate

namespace Outline

theorem filter_children_ofText (hf : ∀ cell ∈ text.cells, cell.IsFaithful) :
    (ofText text).children.filter (fun child => child.label.kind = .functionDeclaration) =
      (FunctionDefinition.findAll text).map ofFunction := by
  apply filter_mergeSort_eq fun tree : Outline => tree.label.offset
  · have hfunctions : ((FunctionDefinition.findAll text).map ofFunction).filter
        (fun child => child.label.kind = .functionDeclaration) =
          (FunctionDefinition.findAll text).map ofFunction := by
      rw [List.filter_eq_self]
      intro child hm
      obtain ⟨function, _, rfl⟩ := List.mem_map.1 hm
      exact decide_eq_true rfl
    have hglobals : ((Declaration.findGlobals text (FunctionDefinition.findAll text)).map
        (ofDeclaration .item)).filter (fun child => child.label.kind = .functionDeclaration) =
          [] := by
      rw [List.filter_eq_nil_iff]
      intro child hm hk
      obtain ⟨declaration, _, rfl⟩ := List.mem_map.1 hm
      cases of_decide_eq_true hk
    rw [List.filter_append, hfunctions, hglobals, List.append_nil]
  · rw [List.pairwise_map]
    exact (FunctionDefinition.pairwise_findAll hf).imp And.left

/-- Functions stand nowhere but at the top of a text. -/
theorem eq_ofFunction_of_mem_subtrees {tree : Outline} (h : tree ∈ (ofText text).subtrees)
    (hk : tree.label.kind = .functionDeclaration) :
    ∃ function ∈ FunctionDefinition.findAll text, tree = ofFunction function := by
  rcases sound_of_mem_subtrees h with rfl | hf | hs
  · cases hk
  · exact hf
  · exact absurd hk hs.kind

theorem ofFunction_mem_subtrees {function : FunctionDefinition}
    (h : function ∈ FunctionDefinition.findAll text) :
    ofFunction function ∈ (ofText text).subtrees := by
  rw [ofText, Tree.mem_subtrees_node]
  refine .inr ⟨_, mem_children_ofText.2 (.inl ⟨function, h, rfl⟩), ?_⟩
  rw [ofFunction, Tree.mem_subtrees_node]
  exact .inl rfl

end Outline

/-- The names of the parameters that a node has as children. -/
def Tree.parameterNames (node : Node) : List String :=
  node.children.filterMap fun child =>
    if child.label.kind = .parameter then child.label.name else none

namespace Source

variable {source : Source}

theorem describe_ofFunction (source : Source) (function : FunctionDefinition) :
    ((Outline.ofFunction function).map source.describe).label.rawText = some function.returnType ∧
      ((Outline.ofFunction function).map source.describe).parameterNames =
        function.parameterNames := by
  refine ⟨by rw [label_describe]; rfl, ?_⟩
  have hblock (block : Slice) (position : Nat) : ([(Tree.node ⟨.blockStatement, .body, position,
      none, .absent⟩ (Outline.ofBlock block) : Outline)].map (Tree.map source.describe)).filterMap
        (fun child => if child.label.kind = .parameter then child.label.name else none) = [] := by
    rw [List.map_singleton, Tree.map_node]
    rfl
  have hparameters (parameters : List Parameter) :
      ((parameters.map Outline.ofParameter).map (Tree.map source.describe)).filterMap
        (fun child => if child.label.kind = .parameter then child.label.name else none) =
          parameters.map (·.name) := by
    rw [List.map_map, List.filterMap_map]
    induction parameters with
    | nil => rfl
    | cons parameter others ih =>
      rw [List.map_cons, ← ih]
      rfl
  rw [Tree.parameterNames, children_describe, Outline.ofFunction, Tree.children, List.map_append,
    List.filterMap_append, hparameters, hblock, List.append_nil]
  rfl

theorem filter_children_tree (hf : ∀ cell ∈ source.view.cells, cell.IsFaithful) (name : String) :
    source.tree.children.filter (fun child =>
        child.label.kind = .functionDeclaration ∧ child.label.name = some name) =
      ((FunctionDefinition.findAll source.view).filter fun function => function.name = name).map
        fun function => (Outline.ofFunction function).map source.describe := by
  rw [tree, children_describe, List.filter_map]
  have htest : ((fun child : Node => decide (child.label.kind = .functionDeclaration ∧
      child.label.name = some name)) ∘ Tree.map source.describe) = fun child : Outline =>
        decide (child.label.name = some name) &&
          decide (child.label.kind = .functionDeclaration) := by
    funext child
    rw [Function.comp_apply, label_describe, Bool.and_comm]
    exact Bool.decide_and ..
  rw [htest, ← List.filter_filter, Outline.filter_children_ofText hf, List.filter_map, List.map_map]
  congr 2
  funext function
  simp only [Function.comp_apply, Outline.ofFunction, Tree.label, Option.some.injEq]

/-- The function entry of a name is that of the last function of the name. -/
theorem get?_symbols_function (hf : ∀ cell ∈ source.view.cells, cell.IsFaithful) (name : String) :
    (source.symbols.get? name).filter (fun entry => entry.kind = .function) =
      ((FunctionDefinition.findAll source.view).filter fun function =>
        function.name = name).getLast?.map fun function =>
          (Candidate.entry source (Candidate.definition function)).2 := by
  have htest : (fun candidate : Candidate => decide (candidate.name = name ∧
      candidate.kind = .function)) = fun candidate =>
        decide (candidate.name = name) && decide (candidate.kind = .function) := by
    funext candidate
    exact Bool.decide_and ..
  rw [get?_symbols_filter, htest, ← List.filter_filter, Candidate.filter_collect hf,
    List.filter_map, List.getLast?_map, Option.map_map]
  rfl

theorem exists_last_function (hf : ∀ cell ∈ source.view.cells, cell.IsFaithful) {name : String}
    {entry : SymbolEntry} (hm : (name, entry) ∈ source.symbols.entries)
    (hk : entry.kind = .function) :
    ∃ function, ((FunctionDefinition.findAll source.view).filter fun function =>
        function.name = name).getLast? = some function ∧
      entry = (Candidate.entry source (Candidate.definition function)).2 := by
  have hget := get?_symbols_function hf name
  rw [mem_symbols_iff.1 hm, Option.filter_some, if_pos (decide_eq_true hk), eq_comm,
    Option.map_eq_some_iff] at hget
  obtain ⟨function, hl, he⟩ := hget
  exact ⟨function, hl, he.symm⟩

end Source

/-- The tree and the symbol table of a text have the same functions, and the entry of a function has
the type and the parameters of the last function of its name among the children of the root. -/
theorem functions_agree (text : String) :
    (∀ name, (∃ label ∈ (structuralTree text).walk,
        label.kind = .functionDeclaration ∧ label.name = some name) ↔
      ∃ entry, (name, entry) ∈ (symbolTable text).entries ∧ entry.kind = .function) ∧
    ∀ name entry, (name, entry) ∈ (symbolTable text).entries → entry.kind = .function →
      ∃ node, ((structuralTree text).children.filter fun child =>
          child.label.kind = .functionDeclaration ∧ child.label.name = some name).getLast? =
            some node ∧
        node.label.rawText = some entry.declaredType ∧
          entry.parameters = some node.parameterNames := by
  have hf := Source.isFaithful_view text
  refine ⟨fun name => ⟨?_, ?_⟩, ?_⟩
  · rintro ⟨label, hm, hk, hname⟩
    obtain ⟨tree, ht, rfl⟩ := List.mem_map.1 hm
    rw [structuralTree, Source.tree, Tree.subtrees_map] at ht
    obtain ⟨outline, ho, rfl⟩ := List.mem_map.1 ht
    rw [Source.label_describe] at hk hname
    obtain ⟨function, hfunction, rfl⟩ := Outline.eq_ofFunction_of_mem_subtrees ho hk
    cases hname
    exact Source.exists_function_entry hfunction
  · rintro ⟨entry, hm, hk⟩
    obtain ⟨function, hl, rfl⟩ := Source.exists_last_function hf hm hk
    have hfunction := List.mem_filter.1 (List.mem_of_getLast? hl)
    have hname : function.name = name := of_decide_eq_true hfunction.2
    have hchild := Outline.ofFunction_mem_subtrees hfunction.1
    rw [structuralTree, Source.tree, Tree.walk_map]
    exact ⟨_, List.mem_map_of_mem (List.mem_map_of_mem hchild), rfl, by rw [← hname]; rfl⟩
  · intro name entry hm hk
    obtain ⟨function, hl, rfl⟩ := Source.exists_last_function hf hm hk
    obtain ⟨hraw, hparameters⟩ := Source.describe_ofFunction (Source.ofString text) function
    refine ⟨_, ?_, hraw, ?_⟩
    · rw [structuralTree, Source.filter_children_tree hf, List.getLast?_map, hl, Option.map_some]
    · rw [hparameters]
      rfl

end CodeOutline
