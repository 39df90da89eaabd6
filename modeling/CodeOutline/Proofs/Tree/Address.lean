import CodeOutline.Proofs.Tree
import Mathlib.Data.List.Basic

namespace CodeOutline.Tree

variable {α : Type}

/-- The subtree at an address. -/
def at? (tree : Tree α) : List Nat → Option (Tree α)
  | [] => some tree
  | index :: address => tree.children[index]?.bind (at? · address)

/-- The subtrees are those at the addresses with the property, each of them once, in pre-order. -/
def Enumerates (tree : Tree α) (P : List Nat → Prop) (found : List (Tree α)) : Prop :=
  ∃ addresses : List (List Nat), addresses.map tree.at? = found.map some ∧
    addresses.Pairwise (· < ·) ∧ ∀ address, address ∈ addresses ↔ P address

variable {tree child : Tree α} {label : α} {children found : List (Tree α)}
  {P Q : List Nat → Prop}

theorem at?_append (tree : Tree α) (above rest : List Nat) :
    tree.at? (above ++ rest) = (tree.at? above).bind (at? · rest) := by
  induction above generalizing tree with
  | nil => rfl
  | cons index above ih =>
    rw [List.cons_append, at?, at?]
    cases tree.children[index]? with
    | none => rfl
    | some child => exact ih child

theorem mem_subtrees_of_at? {found : Tree α} {address : List Nat}
    (h : tree.at? address = some found) : found ∈ tree.subtrees := by
  induction address generalizing tree with
  | nil =>
    cases h
    cases found
    exact mem_subtrees_node.2 (.inl rfl)
  | cons index address ih =>
    obtain ⟨label, children⟩ := tree
    obtain ⟨child, hc, hf⟩ := Option.bind_eq_some_iff.1 h
    exact mem_subtrees_node.2 (.inr ⟨child, List.mem_of_getElem? hc, ih hf⟩)

theorem Enumerates.congr (h : tree.Enumerates P found) (he : ∀ address, P address ↔ Q address) :
    tree.Enumerates Q found := by
  obtain ⟨addresses, hf, hp, hm⟩ := h
  exact ⟨addresses, hf, hp, fun address => (hm address).trans (he address)⟩

theorem enumerates_nil (h : ∀ address, ¬ P address) : tree.Enumerates P [] :=
  ⟨[], rfl, .nil, fun address => iff_of_false List.not_mem_nil (h address)⟩

theorem enumerates_root (h : ∀ address, P address ↔ address = []) : tree.Enumerates P [tree] :=
  ⟨[[]], rfl, List.pairwise_singleton .., fun address =>
    List.mem_singleton.trans (h address).symm⟩

theorem enumerates_chosen {below : Tree α → List Nat → Prop} {find : Tree α → List (Tree α)}
    {chosen : List (Tree α × Nat)} (hc : ∀ entry ∈ chosen, children[entry.2]? = some entry.1)
    (ho : chosen.Pairwise fun left right => left.2 < right.2)
    (h : ∀ child ∈ children, child.Enumerates (below child) (find child)) :
    (node label children).Enumerates
      (fun address => ∃ entry ∈ chosen, ∃ rest, address = entry.2 :: rest ∧ below entry.1 rest)
      (chosen.flatMap fun entry => find entry.1) := by
  induction chosen with
  | nil =>
    apply enumerates_nil
    rintro address ⟨entry, hm, _⟩
    cases hm
  | cons entry chosen ih =>
    rw [List.forall_mem_cons] at hc
    rw [List.pairwise_cons] at ho
    obtain ⟨addresses, hf, hp, hm⟩ := h entry.1 (List.mem_of_getElem? hc.1)
    obtain ⟨others, hfs, hps, hms⟩ := ih hc.2 ho.2
    refine ⟨addresses.map (entry.2 :: ·) ++ others, ?_, ?_, ?_⟩
    · have hat : (node label children).at? ∘ (entry.2 :: ·) = entry.1.at? := by
        funext address
        exact congrArg (Option.bind · (at? · address)) hc.1
      rw [List.map_append, List.map_map, hat, hf, hfs, List.flatMap_cons, List.map_append]
    · rw [List.pairwise_append, List.pairwise_map]
      refine ⟨hp.imp fun hlt => List.cons_lt_cons_iff.2 (.inr ⟨rfl, hlt⟩), hps, ?_⟩
      intro left hl right hr
      obtain ⟨address, _, rfl⟩ := List.mem_map.1 hl
      obtain ⟨next, hn, rest, rfl, _⟩ := (hms right).1 hr
      exact List.cons_lt_cons_iff.2 (.inl (ho.1 next hn))
    · intro address
      rw [List.mem_append, List.mem_map, hms]
      refine Iff.trans (or_congr_left ?_) (List.exists_mem_cons_iff ..).symm
      constructor
      · rintro ⟨rest, hr, rfl⟩
        exact ⟨rest, rfl, (hm rest).1 hr⟩
      · rintro ⟨rest, rfl, hr⟩
        exact ⟨rest, (hm rest).2 hr, rfl⟩

theorem enumerates_sublist (label : α) {below : Tree α → List Nat → Prop}
    {find : Tree α → List (Tree α)} {chosen : List (Tree α × Nat)}
    (hs : chosen.Sublist children.zipIdx)
    (h : ∀ child ∈ children, child.Enumerates (below child) (find child)) :
    (node label children).Enumerates
      (fun address => ∃ entry ∈ chosen, ∃ rest, address = entry.2 :: rest ∧ below entry.1 rest)
      (chosen.flatMap fun entry => find entry.1) := by
  have horder : children.zipIdx.Pairwise fun left right => left.2 < right.2 := by
    rw [← List.pairwise_map, List.zipIdx_map_snd]
    exact List.pairwise_lt_range'
  exact enumerates_chosen (fun entry hm => List.mem_zipIdx_iff_getElem?.1 (hs.subset hm))
    (horder.sublist hs) h

mutual

/-- The subtrees whose labels pass the test and that stand in no other such subtree. -/
def topmost (test : α → Bool) : Tree α → List (Tree α)
  | node label children =>
    if test label then [node label children] else topmostAll test children

def topmostAll (test : α → Bool) : List (Tree α) → List (Tree α)
  | [] => []
  | tree :: others => tree.topmost test ++ topmostAll test others

end

theorem topmostAll_eq_flatMap (test : α → Bool) (trees : List (Tree α)) :
    topmostAll test trees = trees.flatMap (topmost test) := by
  induction trees with
  | nil => rfl
  | cons tree others ih => rw [topmostAll, List.flatMap_cons, ih]

theorem topmost_node (test : α → Bool) (label : α) (children : List (Tree α)) :
    (node label children).topmost test =
      if test label then [node label children] else children.flatMap (topmost test) := by
  rw [topmost, topmostAll_eq_flatMap]

theorem topmost_eq (test : α → Bool) (tree : Tree α) : tree.topmost test =
    if test tree.label then [tree] else tree.children.flatMap (topmost test) := by
  cases tree
  exact topmost_node ..

theorem test_of_mem_topmost {test : α → Bool} {found : Tree α} (h : found ∈ tree.topmost test) :
    test found.label := by
  induction tree using induct with
  | h label children ih =>
    rw [topmost_node] at h
    split at h
    · next ht =>
      rw [List.mem_singleton.1 h]
      exact ht
    · obtain ⟨child, hc, hf⟩ := List.mem_flatMap.1 h
      exact ih child hc hf

/-- A node that passes the test stands at the address, and none that passes stands above. -/
def IsTopmost (test : α → Bool) (tree : Tree α) (address : List Nat) : Prop :=
  ∃ found, tree.at? address = some found ∧ test found.label ∧
    ∀ above, above <+: address → above ≠ address →
      ∀ outer, tree.at? above = some outer → test outer.label = false

variable {test : α → Bool}

theorem isTopmost_root (h : test label) {address : List Nat} :
    (node label children).IsTopmost test address ↔ address = [] := by
  constructor
  · rintro ⟨found, _, _, ha⟩
    by_contra hne
    exact absurd h (Bool.eq_false_iff.1 (ha [] (List.nil_prefix) (Ne.symm hne) _ rfl))
  · rintro rfl
    exact ⟨node label children, rfl, h, fun above hp hne => absurd (List.prefix_nil.1 hp) hne⟩

/-- Below a node that fails the test what is topmost in a child is topmost. -/
theorem isTopmost_cons (h : test label = false) {index : Nat} {address : List Nat} :
    (node label children).IsTopmost test (index :: address) ↔
      ∃ child, children[index]? = some child ∧ child.IsTopmost test address := by
  have hat {child : Tree α} (hc : children[index]? = some child) (rest : List Nat) :
      (node label children).at? (index :: rest) = child.at? rest :=
    congrArg (Option.bind · (at? · rest)) hc
  constructor
  · rintro ⟨found, hf, ht, ha⟩
    obtain ⟨child, hc, hfound⟩ := Option.bind_eq_some_iff.1 hf
    refine ⟨child, hc, found, hfound, ht, ?_⟩
    intro above hp hne outer ho
    apply ha (index :: above) (List.cons_prefix_cons.2 ⟨rfl, hp⟩)
    · intro he
      exact hne (List.cons.inj he).2
    · exact (hat hc above).trans ho
  · rintro ⟨child, hc, found, hf, ht, ha⟩
    refine ⟨found, (hat hc address).trans hf, ht, ?_⟩
    intro above hp hne outer ho
    rcases List.prefix_cons_iff.1 hp with rfl | ⟨rest, rfl, hr⟩
    · cases ho
      exact h
    · rw [hat hc] at ho
      exact ha rest hr (fun he => hne (he ▸ rfl)) outer ho

theorem topmost_eq_nil_iff :
    tree.topmost test = [] ↔ ∀ label ∈ tree.walk, test label = false := by
  induction tree using induct with
  | h label children ih =>
    rw [topmost_node, forall_mem_walk_node]
    split
    · next ht => exact iff_of_false (List.cons_ne_nil _ _) fun h => Bool.eq_false_iff.1 h.1 ht
    · next ht =>
      rw [List.flatMap_eq_nil_iff, and_iff_right (Bool.eq_false_iff.2 ht)]
      exact forall₂_congr ih

theorem enumerates_topmost (test : α → Bool) (tree : Tree α) :
    tree.Enumerates (tree.IsTopmost test) (tree.topmost test) := by
  induction tree using induct with
  | h label children ih =>
    rw [topmost_node]
    split
    · next ht => exact enumerates_root fun address => isTopmost_root ht
    · next ht =>
      have hf : test label = false := Bool.eq_false_iff.2 ht
      have hall := enumerates_sublist label (List.Sublist.refl children.zipIdx) ih
      have hfound : children.flatMap (topmost test) =
          children.zipIdx.flatMap fun entry => entry.1.topmost test := by
        rw [← List.flatMap_map Prod.fst, List.zipIdx_map_fst]
      rw [hfound]
      apply hall.congr
      intro address
      cases address with
      | nil =>
        constructor
        · rintro ⟨entry, _, rest, he, _⟩
          cases he
        · rintro ⟨found, hr, ht', _⟩
          cases hr
          exact absurd ht' ht
      | cons index address =>
        rw [isTopmost_cons hf]
        constructor
        · rintro ⟨entry, hm, rest, he, hr⟩
          cases he
          exact ⟨entry.1, List.mem_zipIdx_iff_getElem?.1 hm, hr⟩
        · rintro ⟨child, hc, hr⟩
          exact ⟨(child, index), List.mem_zipIdx_iff_getElem?.2 hc, address, rfl, hr⟩

end CodeOutline.Tree
