import CodeOutline.Proofs.Tree
import CodeOutline.Render.Encode

namespace CodeOutline

namespace Json

/-- A value all numbers of which are natural. -/
inductive Plain : Json → Prop where
  | null : Plain .null
  | bool (value : Bool) : Plain (.bool value)
  | nat (number : Nat) : Plain (.nat number)
  | string (text : String) : Plain (.string text)
  | array {items : List Json} (h : ∀ item ∈ items, Plain item) : Plain (.array items)
  | object {members : List (String × Json)} (h : ∀ member ∈ members, Plain member.2) :
      Plain (.object members)

variable {value : Json} {items : List Json} {members : List (String × Json)} {c : Char}

theorem plain_strings (texts : List String) : Plain (strings texts) := by
  refine .array fun item hm => ?_
  obtain ⟨text, _, rfl⟩ := List.mem_map.1 hm
  exact .string text

theorem plain_objectOf {members : List (String × Option Json)}
    (h : ∀ member ∈ members, ∀ value ∈ member.2, Plain value) : Plain (objectOf members) := by
  refine .object fun member hm => ?_
  obtain ⟨⟨key, found⟩, hf, he⟩ := List.mem_filterMap.1 hm
  obtain ⟨value, hv, rfl⟩ := Option.map_eq_some_iff.1 he
  exact h (key, found) hf value hv

theorem sortedItems_eq_map (items : List Json) : sortedItems items = items.map sorted := by
  induction items with
  | nil => rfl
  | cons item others ih => rw [sortedItems, ih, List.map_cons]

theorem sortedMembers_eq_map (members : List (String × Json)) :
    sortedMembers members = members.map fun member => (member.1, member.2.sorted) := by
  induction members with
  | nil => rfl
  | cons member others ih => rw [sortedMembers, ih, List.map_cons]

theorem Plain.sorted (h : Plain value) : Plain value.sorted := by
  induction h with
  | null => exact .null
  | bool value => exact .bool value
  | nat number => exact .nat number
  | string text => exact .string text
  | array _ ih =>
    rw [Json.sorted, sortedItems_eq_map]
    refine .array fun item hm => ?_
    obtain ⟨other, ho, rfl⟩ := List.mem_map.1 hm
    exact ih other ho
  | object _ ih =>
    rw [Json.sorted, sortedMembers_eq_map]
    refine .object fun member hm => ?_
    obtain ⟨other, ho, rfl⟩ := List.mem_map.1 (List.mem_mergeSort.1 hm)
    exact ih other ho

/-- Items or members as they are written, with commas between them. -/
def joined {α : Type} (print : α → List Char) : List α → List Char
  | [] => []
  | entry :: others => print entry ++ others.flatMap fun other => ',' :: print other

end Json

open Json (Plain)

theorem Location.plain_toJson (location : Location) : Plain location.toJson := by
  refine .object fun member hm => ?_
  simp only [List.mem_cons, List.not_mem_nil, or_false] at hm
  rcases hm with rfl | rfl <;> exact .nat _

theorem Tree.plain_encode {α : Type} {members : α → List Json → Json}
    (h : ∀ label children, (∀ child ∈ children, Plain child) → Plain (members label children))
    (tree : Tree α) : Plain (tree.encode members) := by
  induction tree using induct with
  | h label children ih =>
    have hall : ∀ {trees : List (Tree α)}, (∀ tree ∈ trees, Plain (tree.encode members)) →
        ∀ value ∈ encodeAll members trees, Plain value := by
      intro trees ht
      induction trees with
      | nil => exact fun value hm => absurd hm List.not_mem_nil
      | cons tree others iht =>
        rw [List.forall_mem_cons] at ht
        exact List.forall_mem_cons.2 ⟨ht.1, iht ht.2⟩
    exact h label _ (hall ih)

theorem plain_of_mem_some {value : Json} (h : Plain value) : ∀ other ∈ some value, Plain other := by
  rintro other ⟨⟩
  exact h

theorem plain_of_mem_map (text : Option String) : ∀ value ∈ text.map Json.string, Plain value := by
  rintro value hm
  obtain ⟨found, _, rfl⟩ := Option.map_eq_some_iff.1 hm
  exact .string found

theorem NodeLabel.plain_members (label : NodeLabel) (children : List Json)
    (h : ∀ child ∈ children, Plain child) : Plain (label.members children) := by
  refine Json.plain_objectOf ?_
  simp only [List.forall_mem_cons]
  exact ⟨plain_of_mem_some (.string _), plain_of_mem_some (.string _), plain_of_mem_map _,
    plain_of_mem_map _, plain_of_mem_some label.location.plain_toJson, plain_of_mem_some (.array h),
    fun _ hm => absurd hm List.not_mem_nil⟩

theorem ScriptLabel.plain_members (label : ScriptLabel) (children : List Json)
    (h : ∀ child ∈ children, Plain child) : Plain (label.members children) := by
  have hspan : Plain (.object [("start", label.start.toJson), ("end", label.stop.toJson)]) := by
    refine .object fun member hm => ?_
    simp only [List.mem_cons, List.not_mem_nil, or_false] at hm
    rcases hm with rfl | rfl <;> exact Location.plain_toJson _
  refine Json.plain_objectOf ?_
  simp only [List.forall_mem_cons]
  exact ⟨plain_of_mem_some (.string _), plain_of_mem_map _, plain_of_mem_map _,
    plain_of_mem_some hspan, plain_of_mem_some (.array h), fun _ hm => absurd hm List.not_mem_nil⟩

theorem SyntaxTree.plain_toJson (tree : SyntaxTree) : Plain tree.toJson := by
  cases tree with
  | outline tree => exact tree.plain_encode NodeLabel.plain_members
  | script tree => exact tree.plain_encode ScriptLabel.plain_members

theorem SymbolEntry.plain_toJson (entry : SymbolEntry) : Plain entry.toJson := by
  have hparameters : ∀ value ∈ entry.parameters.map Json.strings, Plain value := by
    intro value hm
    obtain ⟨texts, _, rfl⟩ := Option.map_eq_some_iff.1 hm
    exact Json.plain_strings texts
  refine Json.plain_objectOf ?_
  simp only [List.forall_mem_cons]
  exact ⟨plain_of_mem_some (.string _), plain_of_mem_some (.string _),
    plain_of_mem_some (.string _), plain_of_mem_some (.nat _), plain_of_mem_some (.nat _),
    hparameters, plain_of_mem_some (.string _), fun _ hm => absurd hm List.not_mem_nil⟩

theorem AnalysisResult.plain_toJson (result : AnalysisResult) : Plain result.toJson := by
  refine .object ?_
  simp only [List.forall_mem_cons]
  refine ⟨.string _, .array ?_, ?_, .object ?_, fun _ hm => absurd hm List.not_mem_nil⟩
  · intro value hm
    obtain ⟨diagnostic, _, rfl⟩ := List.mem_map.1 hm
    refine .object ?_
    simp only [List.forall_mem_cons]
    exact ⟨.nat _, .string _, fun _ hm => absurd hm List.not_mem_nil⟩
  · cases result.tree with
    | none => exact .null
    | some tree => exact tree.plain_toJson
  · intro member hm
    obtain ⟨⟨name, entry⟩, _, rfl⟩ := List.mem_map.1 hm
    exact entry.plain_toJson

end CodeOutline
