import CodeOutline.Proofs.Tree.Address
import CodeOutline.Script.Declared

namespace CodeOutline.Script.ParseTree

/-- The child with the given number is the first that fills the field. -/
def Fills (field : String) (tree : ParseTree) (index : Nat) (child : ParseTree) : Prop :=
  tree.children[index]? = some child ∧ child.label.field = some field ∧
    ∀ earlier < index, ∀ other, tree.children[earlier]? = some other →
      other.label.field ≠ some field

/-- The ways from a pattern to a part of it: the named children of a list of patterns, what gets a
default value, and the value of a property. -/
inductive Leads : ParseTree → Nat → ParseTree → Prop where
  | item {tree : ParseTree} {index : Nat} {child : ParseTree}
      (hk : tree.kind ∈ ["formal_parameters", "object_pattern", "array_pattern", "rest_pattern"])
      (hc : tree.children[index]? = some child) (hn : child.label.named) : Leads tree index child
  | target {tree : ParseTree} {index : Nat} {child : ParseTree}
      (hk : tree.kind ∈ ["assignment_pattern", "object_assignment_pattern"])
      (hc : Fills "left" tree index child) : Leads tree index child
  | value {tree : ParseTree} {index : Nat} {child : ParseTree} (hk : tree.kind = "pair_pattern")
      (hc : Fills "value" tree index child) : Leads tree index child

/-- The addresses of the identifiers that a pattern binds. -/
inductive Binds : ParseTree → List Nat → Prop where
  | name {tree : ParseTree}
      (hk : tree.kind ∈ ["identifier", "shorthand_property_identifier_pattern"]) : Binds tree []
  | part {tree child : ParseTree} {index : Nat} {address : List Nat} (hl : Leads tree index child)
      (h : Binds child address) : Binds tree (index :: address)

variable {tree child : ParseTree} {index : Nat}

theorem boundNames_append (front pending : List ParseTree) :
    boundNames (front ++ pending) = boundNames front ++ boundNames pending := by
  induction front using boundNames.induct with
  | case1 => rw [boundNames]; rfl
  | case2 tree others hn ih =>
    rw [List.cons_append, boundNames, boundNames, if_pos hn, if_pos hn, ih, List.cons_append]
  | case3 tree others hn ih =>
    rw [List.cons_append, boundNames, boundNames, if_neg hn, if_neg hn, ← List.append_assoc, ih]

theorem boundNames_eq_flatMap (trees : List ParseTree) :
    boundNames trees = trees.flatMap fun tree => boundNames [tree] := by
  induction trees with
  | nil => rw [boundNames]; rfl
  | cons tree others ih =>
    rw [← List.singleton_append, boundNames_append, ih]
    rfl

theorem boundNames_singleton (tree : ParseTree) : boundNames [tree] =
    if tree.isBoundName then [tree] else tree.bindingParts.flatMap fun part => boundNames [part] := by
  rw [boundNames, boundNames, List.append_nil, boundNames_eq_flatMap tree.bindingParts]

theorem isBoundName_iff :
    tree.isBoundName ↔ tree.kind ∈ ["identifier", "shorthand_property_identifier_pattern"] := by
  simp [isBoundName]

theorem not_leads_of_isBoundName (h : tree.isBoundName) : ¬ Leads tree index child := by
  rw [isBoundName_iff, List.mem_pair] at h
  intro hl
  cases hl with
  | item hk => rcases h with h | h <;> simp [h] at hk
  | target hk => rcases h with h | h <;> simp [h] at hk
  | value hk => rcases h with h | h <;> simp [h] at hk

theorem binds_of_isBoundName (h : tree.isBoundName) (address : List Nat) :
    Binds tree address ↔ address = [] := by
  constructor
  · intro hb
    cases hb with
    | name => rfl
    | part hl => exact absurd hl (not_leads_of_isBoundName h)
  · rintro rfl
    exact .name (isBoundName_iff.1 h)

theorem exists_filling (field : String) (tree : ParseTree) :
    ∃ chosen : List (ParseTree × Nat), chosen.Sublist tree.children.zipIdx ∧
      chosen.map Prod.fst = (tree.childByField? field).toList ∧
      ∀ entry, entry ∈ chosen ↔ Fills field tree entry.2 entry.1 := by
  cases h : tree.childByField? field with
  | none =>
    refine ⟨[], List.nil_sublist _, rfl, fun entry => iff_of_false List.not_mem_nil ?_⟩
    rintro ⟨hc, hf, _⟩
    have hn := List.find?_eq_none.1 h entry.1 (List.mem_of_getElem? hc)
    exact hn (decide_eq_true hf)
  | some child =>
    obtain ⟨hf, index, hi, hc, hb⟩ := List.find?_eq_some_iff_getElem.1 h
    have hfills : Fills field tree index child := by
      refine ⟨List.getElem?_eq_some_iff.2 ⟨hi, hc⟩, of_decide_eq_true hf, ?_⟩
      intro earlier hlt other ho
      obtain ⟨hlt', rfl⟩ := List.getElem?_eq_some_iff.1 ho
      simpa using hb earlier hlt
    refine ⟨[(child, index)], ?_, rfl, fun entry => ?_⟩
    · exact List.singleton_sublist.2 (List.mem_zipIdx_iff_getElem?.2 hfills.1)
    · rw [List.mem_singleton]
      constructor
      · rintro rfl
        exact hfills
      · rintro ⟨hc', hf', hb'⟩
        rcases Nat.lt_trichotomy entry.2 index with hlt | he | hlt
        · exact absurd hf' (hfills.2.2 entry.2 hlt entry.1 hc')
        · rw [he, hfills.1] at hc'
          exact Prod.ext (Option.some.inj hc').symm he
        · exact absurd hfills.2.1 (hb' index hlt child hfills.1)

/-- The parts through which a pattern binds names are those that it leads to. -/
theorem exists_leading (tree : ParseTree) :
    ∃ chosen : List (ParseTree × Nat), chosen.Sublist tree.children.zipIdx ∧
      chosen.map Prod.fst = tree.bindingParts ∧
      ∀ entry, entry ∈ chosen ↔ Leads tree entry.2 entry.1 := by
  rw [bindingParts]
  split
  · next hk =>
    rw [List.contains_iff_mem] at hk
    obtain ⟨chosen, hs, hp, hm⟩ := exists_filling "left" tree
    refine ⟨chosen, hs, hp, fun entry => (hm entry).trans ⟨.target hk, fun hl => ?_⟩⟩
    rw [List.mem_pair] at hk
    cases hl with
    | item hk' => rcases hk with hk | hk <;> simp [hk] at hk'
    | target _ hc => exact hc
    | value hk' => rcases hk with hk | hk <;> simp [hk] at hk'
  split
  · next hk =>
    obtain ⟨chosen, hs, hp, hm⟩ := exists_filling "value" tree
    refine ⟨chosen, hs, hp, fun entry => (hm entry).trans ⟨.value hk, fun hl => ?_⟩⟩
    cases hl with
    | item hk' => simp [hk] at hk'
    | target hk' => simp [hk] at hk'
    | value _ hc => exact hc
  split
  · next hd hp hk =>
    rw [List.contains_iff_mem] at hd hk
    refine ⟨tree.children.zipIdx.filter (·.1.label.named), List.filter_sublist, ?_, fun entry => ?_⟩
    · conv_rhs => rw [namedChildren, ← List.zipIdx_map_fst 0 tree.children, List.filter_map]
      rfl
    · rw [List.mem_filter, List.mem_zipIdx_iff_getElem?]
      constructor
      · rintro ⟨hc, hn⟩
        exact .item hk hc hn
      · intro hl
        cases hl with
        | item _ hc hn => exact ⟨hc, hn⟩
        | target hk' => exact absurd hk' hd
        | value hk' => exact absurd hk' hp
  · next hd hp hk =>
    rw [List.contains_iff_mem] at hd hk
    refine ⟨[], List.nil_sublist _, rfl, fun entry => iff_of_false List.not_mem_nil fun hl => ?_⟩
    cases hl with
    | item hk' => exact hk hk'
    | target hk' => exact hd hk'
    | value hk' => exact hp hk'

/-- The identifiers that are found in a pattern are those that it binds, each of them once and from
left to right. -/
theorem enumerates_boundNames (pattern : ParseTree) :
    pattern.Enumerates (Binds pattern) (boundNames [pattern]) := by
  induction pattern using Tree.induct with
  | h label children ih =>
    rw [boundNames_singleton]
    split
    · next hn => exact Tree.enumerates_root (binds_of_isBoundName hn)
    · next hn =>
      obtain ⟨chosen, hs, hp, hm⟩ := exists_leading (.node label children)
      rw [← hp, List.flatMap_map]
      apply (Tree.enumerates_sublist _ hs ih).congr
      intro address
      constructor
      · rintro ⟨entry, he, rest, rfl, hb⟩
        exact .part ((hm entry).1 he) hb
      · intro hb
        cases hb with
        | name hk => exact absurd (isBoundName_iff.2 hk) hn
        | @part _ child index rest hl hb =>
          exact ⟨(child, index), (hm (child, index)).2 hl, rest, rfl, hb⟩

end CodeOutline.Script.ParseTree
