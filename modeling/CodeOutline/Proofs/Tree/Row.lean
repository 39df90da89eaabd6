import CodeOutline.Proofs.Tree
import Mathlib.Data.List.Basic

namespace CodeOutline.Tree

variable {α β : Type}

theorem rowsAll_eq_flatMap (depth : Nat) (trees : List (Tree α)) :
    rowsAll depth trees = trees.flatMap (rows depth) := by
  induction trees with
  | nil => rfl
  | cons tree others ih => rw [rowsAll, List.flatMap_cons, ih]

theorem rows_node (depth : Nat) (label : α) (children : List (Tree α)) :
    (node label children).rows depth = (depth, label) :: children.flatMap (rows (depth + 1)) := by
  rw [rows, rowsAll_eq_flatMap]

theorem map_snd_rows (depth : Nat) (tree : Tree α) :
    (tree.rows depth).map Prod.snd = tree.walk := by
  induction tree using induct generalizing depth with
  | h label children ih =>
    rw [rows_node, walk_node, List.map_cons, List.map_flatMap, List.flatMap_def, List.flatMap_def,
      List.map_congr_left fun child hc => ih child hc (depth + 1)]

theorem length_rows (depth : Nat) (tree : Tree α) : (tree.rows depth).length = tree.size := by
  rw [← List.length_map (f := Prod.snd), map_snd_rows, walk, List.length_map, size]

theorem rows_map (f : α → β) (depth : Nat) (tree : Tree α) :
    (tree.map f).rows depth = (tree.rows depth).map (Prod.map id f) := by
  induction tree using induct generalizing depth with
  | h label children ih =>
    rw [map_node, rows_node, rows_node, List.map_cons, List.map_flatMap, List.flatMap_map,
      List.flatMap_def, List.flatMap_def,
      List.map_congr_left fun child hc => ih child hc (depth + 1)]
    rfl

/-- Puts a node before the trees that follow it and makes those its children that stand deeper. -/
def nest (row : Nat × α) (trees : List (Nat × Tree α)) : List (Nat × Tree α) :=
  (row.1, node row.2 ((trees.takeWhile (row.1 < ·.1)).map Prod.snd)) ::
    trees.dropWhile (row.1 < ·.1)

/-- The trees that labels with their depths spell. -/
def ofRows (rows : List (Nat × α)) : List (Tree α) :=
  (rows.foldr nest []).map Prod.snd

/-- A node takes the trees that stand deeper, up to the first that does not. -/
theorem nest_append (depth : Nat) (label : α) (children : List (Tree α))
    {trees : List (Nat × Tree α)} (h : ∀ other ∈ trees.head?, other.1 ≤ depth) :
    nest (depth, label) (children.map (depth + 1, ·) ++ trees) =
      (depth, node label children) :: trees := by
  have hdeeper : ∀ child ∈ children.map (depth + 1, ·), decide (depth < child.1) = true := by
    simp
  have hhead : trees.takeWhile (fun other => decide (depth < other.1)) = [] ∧
      trees.dropWhile (fun other => decide (depth < other.1)) = trees := by
    cases trees with
    | nil => exact ⟨rfl, rfl⟩
    | cons other trees =>
      have hle : ¬ decide (depth < other.1) = true := by simpa using h other rfl
      exact ⟨List.takeWhile_cons_of_neg hle, List.dropWhile_cons_of_neg hle⟩
  rw [nest, List.takeWhile_append_of_pos hdeeper, List.dropWhile_append_of_pos hdeeper, hhead.1,
    hhead.2, List.append_nil, List.map_map]
  simp [Function.comp_def]

theorem foldr_nest_rows (tree : Tree α) (depth : Nat) {trees : List (Nat × Tree α)}
    (h : ∀ other ∈ trees.head?, other.1 ≤ depth) :
    (tree.rows depth).foldr nest trees = (depth, tree) :: trees := by
  induction tree using induct generalizing depth trees with
  | h label children ih =>
    have hchildren : ∀ {part : List (Tree α)}, (∀ child ∈ part, child ∈ children) →
        (part.flatMap (rows (depth + 1))).foldr nest trees =
          part.map (depth + 1, ·) ++ trees := by
      intro part hpart
      induction part with
      | nil => rfl
      | cons child others ihothers =>
        rw [List.forall_mem_cons] at hpart
        rw [List.flatMap_cons, List.foldr_append, ihothers hpart.2, ih child hpart.1]
        · rfl
        · cases others with
          | nil => exact fun other ho => Nat.le_succ_of_le (h other ho)
          | cons other others => simp
    rw [rows_node, List.foldr_cons, hchildren fun child hc => hc,
      nest_append depth label children h]

theorem ofRows_rows (tree : Tree α) (depth : Nat) : ofRows (tree.rows depth) = [tree] := by
  rw [ofRows, foldr_nest_rows tree depth (by simp)]
  rfl

example : ofRows [(0, 'a'), (1, 'b'), (2, 'c'), (1, 'd')] =
    [node 'a' [node 'b' [node 'c' []], node 'd' []]] :=
  rfl

mutual

/-- The labels in pre-order, each with the place of its parent, where the root stands at the place
`first`. -/
def entries (parent : Option Nat) (first : Nat) : Tree α → List (Option Nat × α)
  | node label children => (parent, label) :: entriesAll first (first + 1) children

def entriesAll (parent first : Nat) : List (Tree α) → List (Option Nat × α)
  | [] => []
  | tree :: others =>
    tree.entries (some parent) first ++ entriesAll parent (first + tree.size) others

end

theorem map_snd_entriesAll {trees : List (Tree α)} (h : ∀ tree ∈ trees, ∀ parent first,
    (tree.entries parent first).map Prod.snd = tree.walk) (parent first : Nat) :
    (entriesAll parent first trees).map Prod.snd = trees.flatMap walk := by
  induction trees generalizing first with
  | nil => rfl
  | cons tree others ih =>
    rw [List.forall_mem_cons] at h
    rw [entriesAll, List.map_append, List.flatMap_cons, h.1, ih h.2]

theorem map_snd_entries (tree : Tree α) (parent : Option Nat) (first : Nat) :
    (tree.entries parent first).map Prod.snd = tree.walk := by
  induction tree using induct generalizing parent first with
  | h label children ih =>
    rw [entries, List.map_cons, walk_node, map_snd_entriesAll ih]

theorem length_entries (tree : Tree α) (parent : Option Nat) (first : Nat) :
    (tree.entries parent first).length = tree.size := by
  rw [← List.length_map (f := Prod.snd), map_snd_entries, walk, List.length_map, size]

section

variable {trees : List (Tree α)} {parent first : Nat} {entry : Option Nat × α}

theorem isSome_of_mem_entriesAll (h : ∀ tree ∈ trees, ∀ parent first,
      ∀ entry ∈ tree.entries (some parent) first, entry.1.isSome)
    (hm : entry ∈ entriesAll parent first trees) : entry.1.isSome := by
  induction trees generalizing first with
  | nil => exact absurd hm List.not_mem_nil
  | cons tree others ih =>
    rw [List.forall_mem_cons] at h
    rw [entriesAll, List.mem_append] at hm
    rcases hm with hm | hm
    · exact h.1 parent first entry hm
    · exact ih h.2 hm

theorem isSome_of_mem_entries {tree : Tree α} (h : entry ∈ tree.entries (some parent) first) :
    entry.1.isSome := by
  induction tree using induct generalizing parent first entry with
  | h label children ih =>
    rw [entries, List.mem_cons] at h
    rcases h with rfl | h
    · rfl
    · exact isSome_of_mem_entriesAll (fun child hc parent first entry he => ih child hc he) h

theorem isSome_of_mem_children {children : List (Tree α)}
    (h : entry ∈ entriesAll parent first children) : entry.1.isSome :=
  isSome_of_mem_entriesAll (fun _ _ _ _ _ he => isSome_of_mem_entries he) h

end

theorem entriesAll_map {f : α → β} {trees : List (Tree α)} (h : ∀ tree ∈ trees, ∀ parent first,
    (tree.map f).entries parent first = (tree.entries parent first).map (Prod.map id f))
    (parent first : Nat) : entriesAll parent first (trees.map (map f)) =
      (entriesAll parent first trees).map (Prod.map id f) := by
  induction trees generalizing first with
  | nil => rfl
  | cons tree others ih =>
    rw [List.forall_mem_cons] at h
    rw [List.map_cons, entriesAll, entriesAll, List.map_append, h.1, size_map, ih h.2]

theorem entries_map (f : α → β) (tree : Tree α) (parent : Option Nat) (first : Nat) :
    (tree.map f).entries parent first = (tree.entries parent first).map (Prod.map id f) := by
  induction tree using induct generalizing parent first with
  | h label children ih =>
    rw [map_node, entries, entries, List.map_cons, entriesAll_map ih]
    rfl

/-- A node to which no children are attached yet. -/
def Laid.ofEntry (entry : Option Nat × α) : Laid α :=
  ⟨entry.2, entry.1, #[]⟩

/-- Attaches trees to a node, from the last one on. -/
def Laid.attach (trees : List (Tree α)) (laid : Laid α) : Laid α :=
  { laid with children := laid.children ++ trees.reverse.toArray }

theorem Laid.attach_nil : attach ([] : List (Tree α)) = id := by
  funext laid
  rw [attach, List.reverse_nil, Array.append_empty]
  rfl

theorem Laid.attach_cons (tree : Tree α) (others : List (Tree α)) :
    attach [tree] ∘ attach others = attach (tree :: others) := by
  funext laid
  simp [attach]

theorem assemble_concat (nodes : List (Laid α)) (last : Laid α) :
    assemble (nodes ++ [last]).toArray =
      match last.parent with
      | none => some (.node last.label last.children.toList.reverse)
      | some parent =>
        assemble (nodes.modify parent
          (.attach [.node last.label last.children.toList.reverse])).toArray := by
  have hlast : (nodes ++ [last]).toArray.back (by simp) = last := by simp
  rw [assemble, dif_pos (by simp), hlast]
  simp only [List.pop_toArray, List.dropLast_concat, List.modify_toArray, Array.push_eq_append]
  rfl

section

variable {f : α → α}

theorem modify_append {left : List α} {position : Nat} (h : position < left.length)
    (right : List α) : (left ++ right).modify position f = left.modify position f ++ right := by
  induction left generalizing position with
  | nil => cases h
  | cons first left ih =>
    cases position with
    | zero => rfl
    | succ position =>
      rw [List.cons_append, List.modify_succ_cons, ih (Nat.lt_of_succ_lt_succ h)]
      rfl

theorem modify_concat (left : List α) (last : α) :
    (left ++ [last]).modify left.length f = left ++ [f last] := by
  induction left with
  | nil => rfl
  | cons first left ih => rw [List.cons_append, List.length_cons, List.modify_succ_cons, ih]; rfl

end

/-- A tree in a row behind other nodes becomes the first child of its parent among them. -/
def Attaches (tree : Tree α) : Prop :=
  ∀ (nodes : List (Laid α)) (parent : Nat), parent < nodes.length →
    assemble (nodes ++ (tree.entries (some parent) nodes.length).map Laid.ofEntry).toArray =
      assemble (nodes.modify parent (.attach [tree])).toArray

/-- The last of several trees is attached first, while all before it still stand in the row. -/
theorem attaches_all {trees : List (Tree α)} (h : ∀ tree ∈ trees, Attaches tree)
    (nodes : List (Laid α)) {parent : Nat} (hp : parent < nodes.length) :
    assemble (nodes ++ (entriesAll parent nodes.length trees).map Laid.ofEntry).toArray =
      assemble (nodes.modify parent (.attach trees)).toArray := by
  induction trees generalizing nodes with
  | nil =>
    rw [entriesAll, List.map_nil, List.append_nil, Laid.attach_nil, List.modify_id]
  | cons tree others ih =>
    rw [List.forall_mem_cons] at h
    have hlaid : ((tree.entries (some parent) nodes.length).map Laid.ofEntry).length =
        tree.size := by
      rw [List.length_map, length_entries]
    have hothers := ih h.2 (nodes ++ (tree.entries (some parent) nodes.length).map Laid.ofEntry)
      (Nat.lt_of_lt_of_le hp (by simp))
    rw [List.length_append, hlaid, modify_append hp, List.append_assoc,
      ← List.map_append] at hothers
    have htree := h.1 (nodes.modify parent (.attach others)) parent (by rwa [List.length_modify])
    rw [List.length_modify, List.modify_modify_eq, Laid.attach_cons] at htree
    rw [entriesAll]
    exact hothers.trans htree

theorem assemble_append {label : α} {children : List (Tree α)}
    (h : ∀ child ∈ children, Attaches child) (nodes : List (Laid α)) (parent : Option Nat) :
    assemble (nodes ++
        ((node label children).entries parent nodes.length).map Laid.ofEntry).toArray =
      assemble (nodes ++ [Laid.mk label parent children.reverse.toArray]).toArray := by
  let last : Laid α := ⟨label, parent, #[]⟩
  have hlast : nodes.length < (nodes ++ [last]).length := by simp
  have hchildren := attaches_all h (nodes ++ [last]) hlast
  rw [modify_concat, List.length_append, List.append_assoc] at hchildren
  simpa [entries, Laid.ofEntry, Laid.attach, last] using hchildren

theorem attaches (tree : Tree α) : Attaches tree := by
  induction tree using induct with
  | h label children ih =>
    intro nodes parent hp
    rw [assemble_append ih nodes (some parent), assemble_concat]
    simp only [List.reverse_reverse]

/-- The labels of a tree, each with the place of its parent, spell the tree. -/
theorem assemble_entries (tree : Tree α) :
    assemble ((tree.entries none 0).map Laid.ofEntry).toArray = some tree := by
  obtain ⟨label, children⟩ := tree
  refine (assemble_append (fun child _ => attaches child) [] none).trans ?_
  rw [assemble_concat]
  simp only [List.reverse_reverse]

end CodeOutline.Tree
