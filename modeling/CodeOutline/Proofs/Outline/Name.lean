import CodeOutline.Proofs.Outline.Induction
import CodeOutline.Proofs.Symbol.Address
import CodeOutline.Proofs.Text.Line

namespace CodeOutline

open Slice (IsPart IsTail)

variable {slice text : Slice}

/-- Whether a text has no other characters than the name of a call. -/
def IsSpelled (name : String) : Prop :=
  ∀ c ∈ name.toList, Outline.isCallWord c

theorem IsSpelled.isLine {name : String} (h : IsSpelled name) : Text.IsLine name :=
  Text.isLine_of_forall Outline.isCallWord (by decide) h

theorem isCallWord_of_isWord {c : Char} (h : CharClass.isWord c) : Outline.isCallWord c := by
  rw [Outline.isCallWord, h, Bool.true_or]

theorem Slice.forall_of_within {cls : Char → Bool} (h : ∀ cell ∈ slice.cells, cell.within cls) :
    ∀ c ∈ slice.text.toList, cls c := by
  intro c hc
  rw [Slice.text, Cell.text, String.toList_ofList] at hc
  obtain ⟨cell, hm, hcell⟩ := List.mem_filterMap.1 hc
  have hcls := h cell hm
  rwa [Cell.within, hcell] at hcls

theorem Slice.isSpelled_of_opening? {name list : Slice}
    (h : slice.opening? Outline.isCallWord = some (name, list)) : IsSpelled name.text := by
  obtain ⟨⟨word, after⟩, hw, ho⟩ := Option.bind_eq_some_iff.1 h
  obtain ⟨_, he⟩ := Option.ite_none_right_eq_some.1 ho
  cases he
  obtain ⟨first, rest, _, _, rfl, _, hfirst, hrest, _⟩ := word?_append hw
  exact forall_of_within (List.forall_mem_cons.2
    ⟨Cell.within_mono (fun _ => isCallWord_of_isWord) (Cell.isWord_of_begins hfirst), hrest⟩)

theorem Slice.IsWordOf.isSpelled (h : slice.IsWordOf text) : IsSpelled slice.text :=
  fun c hc => isCallWord_of_isWord (forall_of_within h.within c hc)

theorem isSpelled_numbered (index : Nat) : IsSpelled s!"param{index}" := by
  have htext : s!"param{index}".toList = "param".toList ++ Nat.toDigits 10 index := by
    rw [← Nat.toList_repr, ← String.toList_append]
    rfl
  have hletters : "param".toList.all Outline.isCallWord := by decide
  intro c hc
  rw [htext] at hc
  rcases List.mem_append.1 hc with hc | hc
  · exact List.all_eq_true.1 hletters c hc
  · have hdigit := Nat.isDigit_of_mem_toDigits (by decide) (by decide) hc
    have hname : CharClass.isNameChar c := by simp [CharClass.isNameChar, Char.isAlphanum, hdigit]
    exact isCallWord_of_isWord (CharClass.isWord_of_isNameChar hname)

theorem Parameter.isSpelled_name {list : Slice} {parameter : Parameter}
    (h : parameter ∈ readList list) : IsSpelled parameter.name := by
  rcases name_of_mem_readList h with ⟨word, hw, hname⟩ | ⟨index, _, hname⟩
  · exact hname ▸ hw.isSpelled
  · exact hname ▸ isSpelled_numbered index

namespace Outline

variable {levels : Nat} {after : Slice} {relation : Relation} {outline : Outline}

/-- Whether every name in an outline is spelled as a name. -/
def Spelled (outline : Outline) : Prop :=
  ∀ item ∈ outline.walk, ∀ name ∈ item.name, IsSpelled name

theorem spelled_node {item : Item} {children : List Outline} : Spelled (.node item children) ↔
    (∀ name ∈ item.name, IsSpelled name) ∧ ∀ child ∈ children, Spelled child :=
  Tree.forall_mem_walk_node

theorem spelled_leaf (kind : NodeKind) (relation : Relation) (slice : Slice) :
    Spelled (leaf kind relation slice) := by
  rw [leaf, spelled_node]
  exact ⟨fun name hn => (by cases hn), fun child hc => absurd hc List.not_mem_nil⟩

theorem spelled_relabel (h : Spelled outline) :
    Spelled (outline.relabel fun item => { item with relation := relation }) := by
  obtain ⟨item, children⟩ := outline
  rw [spelled_node] at h
  rw [Tree.relabel, spelled_node]
  exact h

theorem spelled_ofDeclaration {declaration : Declaration}
    (h : Declaration.read? slice = some declaration) :
    Spelled (ofDeclaration relation declaration) := by
  obtain ⟨word, hw, hname⟩ := Candidate.isWordOf_declaration h (IsPart.refl slice)
  rw [ofDeclaration, spelled_node]
  refine ⟨?_, fun child hc => ?_⟩
  · rintro name ⟨⟩
    exact hname ▸ hw.isSpelled
  · obtain ⟨value, _, rfl⟩ := List.mem_map.1 hc
    exact spelled_leaf _ _ _

theorem spelled_ofCall {name : Slice} (h : IsSpelled name.text) (inner : Slice) :
    Spelled (ofCall relation name inner) := by
  rw [ofCall, spelled_node]
  refine ⟨?_, fun child hc => ?_⟩
  · rintro name ⟨⟩
    exact h
  · obtain ⟨piece, _, rfl⟩ := List.mem_map.1 hc
    exact spelled_leaf _ _ _

theorem spelled_return? (h : return? slice = some outline) : Spelled outline := by
  obtain ⟨rest, stop, value, _, _, _, rfl⟩ := return?_spec h
  rw [spelled_node]
  refine ⟨fun name hn => (by cases hn), fun child hc => ?_⟩
  obtain ⟨tail, name, list, inner, after, _, ho, _, rfl⟩ :=
    findCall?_begins (Option.mem_toList.1 hc)
  exact spelled_ofCall (Slice.isSpelled_of_opening? ho) inner

theorem spelled_callStatement? (h : callStatement? slice = some outline) : Spelled outline := by
  obtain ⟨heading, hh, rfl⟩ := callStatement?_spec h
  obtain ⟨after, hw, _⟩ := Slice.exists_word?_of_heading? hh
  exact spelled_ofCall (Slice.isWordOf_word? hw).isSpelled heading.inner

theorem spelled_headed (h : Headed levels (below levels) slice outline after)
    (hb : Branches (fun _ _ => Spelled) levels h.heading.after h.bodies after) :
    Spelled outline := by
  rw [h.outline_eq, spelled_node, h.name]
  refine ⟨fun name hn => (by cases hn), fun child hc => ?_⟩
  rcases List.mem_append.1 hc with hc | hc
  · obtain ⟨kind, relation, part, rfl, _⟩ := h.leaf_of_mem child hc
    exact spelled_leaf _ _ _
  · obtain ⟨other, rest, _, hbranch⟩ := hb.exists_branch hc
    cases hbranch with
    | body hbody =>
      obtain ⟨_, hs⟩ := hbody
      rw [spelled_node]
      refine ⟨fun name hn => (by cases hn), fun child hm => ?_⟩
      obtain ⟨next, hl, head, hh, hchild⟩ := mem_statementsBelow.1 hm
      exact hs next hl head hh child hchild
    | chained _ _ _ hp => exact spelled_relabel hp

theorem spelled_statement? (h : statement? levels (below levels) slice = some outline) :
    Spelled outline :=
  statement?_induct (P := fun _ _ => Spelled) spelled_ofDeclaration spelled_return?
    spelled_callStatement? spelled_headed h

theorem spelled_ofFunction {function : FunctionDefinition}
    (h : FunctionDefinition.read? slice = some function) : Spelled (ofFunction function) := by
  obtain ⟨declarator, list, after, hd, _, _, _, _, hparameters, _⟩ :=
    FunctionDefinition.read?_parts h
  obtain ⟨declarator', _, _, hd', hname, _⟩ := FunctionDefinition.read?_opening h
  rw [ofFunction, spelled_node]
  refine ⟨?_, fun child hc => ?_⟩
  · rintro name ⟨⟩
    exact hname ▸ (Declarator.isWordOf_name hd').isSpelled
  · rcases List.mem_append.1 hc with hc | hc
    · obtain ⟨parameter, hm, rfl⟩ := List.mem_map.1 hc
      rw [ofParameter, spelled_node]
      refine ⟨?_, fun child hc => absurd hc List.not_mem_nil⟩
      rintro name ⟨⟩
      exact Parameter.isSpelled_name (hparameters ▸ hm)
    · rw [List.mem_singleton.1 hc, spelled_node]
      refine ⟨fun name hn => (by cases hn), fun child hm => ?_⟩
      obtain ⟨head, _, hchild⟩ := mem_level_block.1 hm
      exact spelled_statement? hchild

theorem spelled_ofText (text : Slice) : Spelled (ofText text) := by
  have hchild : ∀ child ∈ (ofText text).children, Spelled child := by
    intro child hc
    rcases mem_children_ofText.1 hc with ⟨function, hf, rfl⟩ | ⟨declaration, hd, rfl⟩
    · obtain ⟨head, _, hf⟩ := FunctionDefinition.mem_findAll.1 hf
      exact spelled_ofFunction hf
    · obtain ⟨⟨head, _, hd⟩, _⟩ := Declaration.mem_findGlobals.1 hd
      exact spelled_ofDeclaration hd
  rw [ofText, spelled_node]
  exact ⟨fun name hn => (by cases hn), hchild⟩

end Outline

theorem isSpelled_structuralTree {text name : String} {label : NodeLabel}
    (h : label ∈ (structuralTree text).walk) (hn : name ∈ label.name) : IsSpelled name := by
  rw [structuralTree, Source.tree, Tree.walk_map] at h
  obtain ⟨item, hi, rfl⟩ := List.mem_map.1 h
  exact Outline.spelled_ofText _ item hi name hn

end CodeOutline
