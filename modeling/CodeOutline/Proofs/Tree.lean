import CodeOutline.Tree.Basic

namespace CodeOutline.Tree

variable {α β γ : Type}

mutual

theorem induct {P : Tree α → Prop}
    (h : ∀ label children, (∀ child ∈ children, P child) → P (node label children)) :
    (tree : Tree α) → P tree
  | node label children => h label children (inductAll h children)

theorem inductAll {P : Tree α → Prop}
    (h : ∀ label children, (∀ child ∈ children, P child) → P (node label children)) :
    (trees : List (Tree α)) → ∀ tree ∈ trees, P tree
  | [] => fun _ hm => absurd hm List.not_mem_nil
  | first :: others => fun tree hm =>
    have hf := induct h first
    have ho := inductAll h others
    (List.mem_cons.1 hm).elim (fun he => he ▸ hf) (ho tree)

end

theorem mapAll_eq_map (f : α → β) (trees : List (Tree α)) : mapAll f trees = trees.map (map f) := by
  induction trees with
  | nil => rfl
  | cons tree others ih => rw [mapAll, List.map_cons, ih]

@[simp] theorem map_node (f : α → β) (label : α) (children : List (Tree α)) :
    (node label children).map f = node (f label) (children.map (map f)) := by
  rw [map, mapAll_eq_map]

theorem subtreesAll_eq_flatMap (trees : List (Tree α)) :
    subtreesAll trees = trees.flatMap subtrees := by
  induction trees with
  | nil => rfl
  | cons tree others ih => rw [subtreesAll, List.flatMap_cons, ih]

theorem mem_subtrees_node {tree : Tree α} {label : α} {children : List (Tree α)} :
    tree ∈ (node label children).subtrees ↔
      tree = node label children ∨ ∃ child ∈ children, tree ∈ child.subtrees := by
  rw [subtrees, List.mem_cons, subtreesAll_eq_flatMap, List.mem_flatMap]

theorem eq_or_mem_children {tree whole : Tree α} (h : tree ∈ whole.subtrees) :
    tree = whole ∨ ∃ parent ∈ whole.subtrees, tree ∈ parent.children := by
  induction whole using induct with
  | h label children ih =>
    rcases mem_subtrees_node.1 h with he | ⟨child, hc, ht⟩
    · exact .inl he
    · refine .inr ?_
      rcases ih child hc ht with rfl | ⟨parent, hp, hm⟩
      · exact ⟨node label children, mem_subtrees_node.2 (.inl rfl), hc⟩
      · exact ⟨parent, mem_subtrees_node.2 (.inr ⟨child, hc, hp⟩), hm⟩

theorem walk_node (label : α) (children : List (Tree α)) :
    (node label children).walk = label :: children.flatMap walk := by
  rw [walk, subtrees, List.map_cons, subtreesAll_eq_flatMap, List.map_flatMap]
  rfl

theorem forall_mem_walk_node {P : α → Prop} {label : α} {children : List (Tree α)} :
    (∀ value ∈ (node label children).walk, P value) ↔
      P label ∧ ∀ child ∈ children, ∀ value ∈ child.walk, P value := by
  rw [walk_node, List.forall_mem_cons]
  simp only [List.mem_flatMap, forall_exists_index, and_imp]
  exact and_congr_right' ⟨fun h child hc value hv => h value child hc hv,
    fun h value child hc hv => h child hc value hv⟩

theorem map_congr {f g : α → β} {tree : Tree α} (h : ∀ label ∈ tree.walk, f label = g label) :
    tree.map f = tree.map g := by
  induction tree using induct with
  | h label children ih =>
    simp only [walk_node, List.mem_cons, List.mem_flatMap] at h
    rw [map_node, map_node, h label (.inl rfl)]
    congr 1
    apply List.map_congr_left
    intro child hm
    exact ih child hm fun other ho => h other (.inr ⟨child, hm, ho⟩)

theorem map_map (f : α → β) (g : β → γ) (tree : Tree α) :
    (tree.map f).map g = tree.map (g ∘ f) := by
  induction tree using induct with
  | h label children ih =>
    simp only [map_node, List.map_map, Function.comp_apply]
    congr 1
    apply List.map_congr_left
    exact ih

theorem walk_map (f : α → β) (tree : Tree α) : (tree.map f).walk = tree.walk.map f := by
  induction tree using induct with
  | h label children ih =>
    rw [map_node, walk_node, walk_node, List.map_cons, List.map_flatMap, List.flatMap_map,
      List.flatMap_def, List.flatMap_def, List.map_congr_left ih]

theorem subtrees_map (f : α → β) (tree : Tree α) :
    (tree.map f).subtrees = tree.subtrees.map (map f) := by
  induction tree using induct with
  | h label children ih =>
    rw [map_node, subtrees, subtrees, List.map_cons, map_node, subtreesAll_eq_flatMap,
      subtreesAll_eq_flatMap, List.map_flatMap, List.flatMap_map, List.flatMap_def,
      List.flatMap_def, List.map_congr_left ih]

theorem size_map (f : α → β) (tree : Tree α) : (tree.map f).size = tree.size := by
  rw [size, size, subtrees_map, List.length_map]

/-- Whether the predicate holds of each label with those of its children. -/
def Locally (P : α → List α → Prop) (tree : Tree α) : Prop :=
  ∀ subtree ∈ tree.subtrees, P subtree.label (subtree.children.map label)

theorem locally_node {P : α → List α → Prop} {value : α} {children : List (Tree α)} :
    (node value children).Locally P ↔
      P value (children.map label) ∧ ∀ child ∈ children, child.Locally P := by
  simp only [Locally, mem_subtrees_node]
  constructor
  · intro h
    exact ⟨h _ (.inl rfl), fun child hc subtree hs => h subtree (.inr ⟨child, hc, hs⟩)⟩
  · rintro ⟨hn, hc⟩ subtree (rfl | ⟨child, hm, hs⟩)
    · exact hn
    · exact hc child hm subtree hs

theorem locally_leaf {P : α → List α → Prop} {value : α} :
    (node value []).Locally P ↔ P value [] := by
  rw [locally_node, List.map_nil]
  exact and_iff_left fun child hc => absurd hc List.not_mem_nil

end CodeOutline.Tree
