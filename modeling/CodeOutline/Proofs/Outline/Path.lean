import CodeOutline.Proofs.Outline.Depth
import CodeOutline.Proofs.Outline.Induction

namespace CodeOutline

namespace Tree

variable {α β : Type}

mutual

/-- The labels on the way from the root to each leaf. -/
def paths : Tree α → List (List α)
  | node label [] => [[label]]
  | node label (child :: others) => (child.paths ++ pathsAll others).map (label :: ·)

def pathsAll : List (Tree α) → List (List α)
  | [] => []
  | tree :: others => tree.paths ++ pathsAll others

end

variable {label : α} {children : List (Tree α)} {path : List α}

theorem pathsAll_eq_flatMap (trees : List (Tree α)) : pathsAll trees = trees.flatMap paths := by
  induction trees with
  | nil => rfl
  | cons tree others ih => rw [pathsAll, List.flatMap_cons, ih]

theorem eq_of_mem_paths_node (h : path ∈ (node label children).paths) :
    path = [label] ∨ ∃ child ∈ children, ∃ rest ∈ child.paths, path = label :: rest := by
  cases children with
  | nil => exact .inl (List.mem_singleton.1 h)
  | cons child others =>
    rw [paths, ← pathsAll, pathsAll_eq_flatMap, List.mem_map] at h
    obtain ⟨rest, hm, rfl⟩ := h
    obtain ⟨next, hc, hr⟩ := List.mem_flatMap.1 hm
    exact .inr ⟨next, hc, rest, hr, rfl⟩

theorem paths_map (f : α → β) (tree : Tree α) : (tree.map f).paths = tree.paths.map (·.map f) := by
  induction tree using induct with
  | h label children ih =>
    have hall : pathsAll (children.map (map f)) = (pathsAll children).map (·.map f) := by
      rw [pathsAll_eq_flatMap, pathsAll_eq_flatMap, List.map_flatMap, List.flatMap_map,
        List.flatMap_def, List.flatMap_def, List.map_congr_left ih]
    cases children with
    | nil => rfl
    | cons child others =>
      rw [map_node]
      change (pathsAll ((child :: others).map (map f))).map (f label :: ·) =
        ((pathsAll (child :: others)).map (label :: ·)).map (·.map f)
      rw [hall, List.map_map, List.map_map]
      rfl

end Tree

namespace Outline

/-- Bounds on the bodies and on the nodes of each path. -/
def Shallow (bodies nodes : Nat) (outline : Outline) : Prop :=
  ∀ path ∈ outline.paths,
    path.countP (·.kind = .blockStatement) ≤ bodies ∧ path.length ≤ nodes

variable {levels bodies nodes bodies' nodes' : Nat} {slice after : Slice} {item : Item}
  {children : List Outline} {outline : Outline}

theorem Shallow.mono (h : Shallow bodies nodes outline) (hb : bodies ≤ bodies')
    (hn : nodes ≤ nodes') : Shallow bodies' nodes' outline :=
  fun path hm => ⟨Nat.le_trans (h path hm).1 hb, Nat.le_trans (h path hm).2 hn⟩

theorem shallow_node (hi : item.kind ≠ .blockStatement)
    (h : ∀ child ∈ children, Shallow bodies nodes child) :
    Shallow bodies (nodes + 1) (.node item children) := by
  intro path hm
  rcases Tree.eq_of_mem_paths_node hm with rfl | ⟨child, hc, rest, hr, rfl⟩
  · simp [hi]
  · obtain ⟨hb, hn⟩ := h child hc rest hr
    rw [List.countP_cons_of_neg (by simpa using hi), List.length_cons]
    omega

theorem shallow_block (h : ∀ child ∈ children, Shallow bodies nodes child) :
    Shallow (bodies + 1) (nodes + 1) (.node item children) := by
  intro path hm
  rcases Tree.eq_of_mem_paths_node hm with rfl | ⟨child, hc, rest, hr, rfl⟩
  · have := List.countP_le_length (p := fun item : Item => decide (item.kind = .blockStatement))
      (l := [item])
    simp only [List.length_singleton] at this ⊢
    omega
  · obtain ⟨hb, hn⟩ := h child hc rest hr
    rw [List.countP_cons, List.length_cons]
    split <;> omega

theorem shallow_childless (item : Item) : Shallow 1 1 (.node item []) :=
  shallow_block fun _ hc => absurd hc List.not_mem_nil

theorem shallow_leaf {kind : NodeKind} (hk : kind ≠ .blockStatement) (relation : Relation)
    (slice : Slice) : Shallow 0 1 (leaf kind relation slice) :=
  shallow_node hk fun _ hc => absurd hc List.not_mem_nil

theorem shallow_relabel {f : Item → Item} (hf : ∀ item, (f item).kind = item.kind)
    (h : Shallow bodies nodes outline) : Shallow bodies nodes (outline.relabel f) := by
  obtain ⟨item, children⟩ := outline
  rw [Tree.relabel]
  intro path hm
  cases children with
  | nil =>
    rw [List.mem_singleton.1 hm]
    simpa [hf] using h [item] List.mem_cons_self
  | cons child others =>
    rw [Tree.paths, List.mem_map] at hm
    obtain ⟨rest, hr, rfl⟩ := hm
    have hpath := h (item :: rest) (by rw [Tree.paths]; exact List.mem_map_of_mem hr)
    rw [List.countP_cons, List.length_cons] at hpath ⊢
    rwa [hf]

theorem shallow_ofDeclaration (relation : Relation) (declaration : Declaration) :
    Shallow 0 2 (ofDeclaration relation declaration) := by
  refine shallow_node nofun fun child hc => ?_
  obtain ⟨value, _, rfl⟩ := List.mem_map.1 hc
  exact shallow_leaf (by decide) _ _

theorem shallow_ofCall (relation : Relation) (name inner : Slice) :
    Shallow 0 2 (ofCall relation name inner) := by
  refine shallow_node nofun fun child hc => ?_
  obtain ⟨piece, _, rfl⟩ := List.mem_map.1 hc
  exact shallow_leaf (by decide) _ _

theorem shallow_return? (h : return? slice = some outline) : Shallow 0 3 outline := by
  obtain ⟨rest, stop, value, _, _, _, rfl⟩ := return?_spec h
  refine shallow_node nofun fun child hc => ?_
  obtain ⟨name, inner, rfl, _⟩ := findCall?_spec (Option.mem_toList.1 hc)
  exact shallow_ofCall _ _ _

/-- What the bounds for statements at a level are. -/
def ShallowAt (levels : Nat) (_ : Slice) (outline : Outline) : Prop :=
  Shallow (levels + 1) (2 * levels + 3) outline

/-- The bodies at a level hold the statements of the level below. -/
theorem shallow_branch (h : Branch ShallowAt levels slice outline after) :
    Shallow (levels + 1) (2 * levels + 2) outline := by
  cases h with
  | body h =>
    obtain ⟨_, hs⟩ := h
    cases levels with
    | zero => exact (shallow_childless _).mono (by omega) (by omega)
    | succ next =>
      refine shallow_block fun child hc => ?_
      obtain ⟨_, hl, head, hm, hchild⟩ := mem_statementsBelow.1 hc
      exact (hs _ hl head hm child hchild).mono (by omega) (by omega)
  | chained hl hn hc hp =>
    subst hl
    exact shallow_relabel (fun _ => rfl) (hp.mono (by omega) (by omega))

theorem shallow_statement? (h : statement? levels (below levels) slice = some outline) :
    Shallow (levels + 1) (2 * levels + 3) outline := by
  refine statement?_induct (P := ShallowAt) ?_ ?_ ?_ ?_ h
  · intro levels slice declaration _
    exact (shallow_ofDeclaration _ _).mono (Nat.zero_le _) (by omega)
  · intro levels slice outline hr
    exact (shallow_return? hr).mono (Nat.zero_le _) (by omega)
  · intro levels slice outline hc
    obtain ⟨heading, _, rfl⟩ := callStatement?_spec hc
    exact (shallow_ofCall _ _ _).mono (Nat.zero_le _) (by omega)
  · intro levels slice after outline h hb
    rw [ShallowAt, h.outline_eq]
    have hkinds : ∀ kind ∈ [NodeKind.ifStatement, .forStatement, .whileStatement],
        kind ≠ .blockStatement := by decide
    have hleaves : ∀ entry ∈ clauses, entry.1 ≠ .blockStatement := by decide
    refine shallow_node (hkinds _ h.kind) fun child hc => ?_
    rcases List.mem_append.1 hc with hc | hc
    · obtain ⟨kind, relation, part, rfl, hk, _⟩ := h.leaf_of_mem child hc
      exact (shallow_leaf (hleaves _ hk) relation part).mono (Nat.zero_le _) (by omega)
    · obtain ⟨_, _, _, hbranch⟩ := hb.exists_branch hc
      exact shallow_branch hbranch

theorem shallow_ofFunction (function : FunctionDefinition) :
    Shallow (maxNesting + 2) (2 * maxNesting + 5) (ofFunction function) := by
  refine shallow_node nofun fun child hc => ?_
  rcases List.mem_append.1 hc with hc | hc
  · obtain ⟨parameter, _, rfl⟩ := List.mem_map.1 hc
    exact (shallow_childless _).mono (by omega) (by omega)
  · rw [List.mem_singleton.1 hc]
    refine shallow_block fun child hc => ?_
    obtain ⟨head, _, hchild⟩ := mem_level_block.1 hc
    exact shallow_statement? hchild

theorem shallow_ofText (text : Slice) :
    Shallow (maxNesting + 2) (2 * maxNesting + 6) (ofText text) := by
  refine shallow_node nofun fun child hc => ?_
  rcases mem_children_ofText.1 hc with ⟨function, _, rfl⟩ | ⟨declaration, _, rfl⟩
  · exact shallow_ofFunction function
  · exact (shallow_ofDeclaration _ _).mono (Nat.zero_le _) (by omega)

end Outline

/-- No call of a recogniser is made at a depth beyond the deepest level, and the nesting of a tree is
bounded by it. -/
theorem nesting_structuralTree (text : String) :
    Capped.tree (Source.ofString text) = .ok (structuralTree text) ∧
      ∀ path ∈ (structuralTree text).paths,
        path.countP (·.kind = .blockStatement) ≤ maxNesting + 2 ∧
          path.length ≤ 2 * maxNesting + 6 := by
  refine ⟨Capped.tree_eq _, fun path hm => ?_⟩
  rw [structuralTree, Source.tree, Tree.paths_map, List.mem_map] at hm
  obtain ⟨items, hi, rfl⟩ := hm
  obtain ⟨hb, hn⟩ := Outline.shallow_ofText _ items hi
  rw [List.countP_map, List.length_map]
  exact ⟨hb, hn⟩

end CodeOutline
