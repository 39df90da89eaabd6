import CodeOutline.Proofs.Outline.Tidy
import CodeOutline.Proofs.Source.Mask
import CodeOutline.Tree.Basic

namespace CodeOutline

open Slice (IsPaired Starts)

theorem FunctionDefinition.length_parameters_le {slice : Slice} {function : FunctionDefinition}
    (h : read? slice = some function) :
    slice.start + function.parameters.length ≤ function.opening := by
  rw [read?, Option.bind_eq_some_iff] at h
  obtain ⟨declarator, hd, h⟩ := h
  obtain ⟨_, _, hr, _⟩ := Declarator.read?_spec hd
  simp only at h
  split at h
  · rw [Option.bind_eq_some_iff] at h
    obtain ⟨⟨entries, after⟩, hb, h⟩ := h
    obtain ⟨_, _, hlt, hle⟩ := Slice.block?_spec hb
    have hlist := ((Slice.isTail_skipSpace declarator.rest).trans hr).isPart.start_le
    have hbraced := (Slice.isTail_skipBlank after).isPart.start_le
    have hlength : (Parameter.readList entries).length ≤ entries.cells.length + 1 := by
      apply Nat.le_trans (List.length_filterMap_le ..)
      rw [List.length_zipIdx, List.length_map]
      exact Slice.length_split_le ..
    rw [Slice.stop] at hle
    simp only at h
    split at h
    · cases h
      simp only
      omega
    · cases h
  · cases h

namespace Outline

theorem weigh_one (outlines : List Outline) :
    weigh (Function.const Item 1) outlines = Tree.sizeAll outlines := by
  induction outlines with
  | nil => rfl
  | cons outline others ih =>
    rw [weigh_cons, ih, Tree.sizeAll, weigh, List.flatMap_singleton, Tree.walk, List.map_map,
      Tree.size, Function.const_comp]
    rw [List.map_const, List.sum_replicate_nat, Nat.mul_one]

theorem sizeAll_leaves {leaves : List Outline} (h : ∀ leaf ∈ leaves, leaf.children = []) :
    Tree.sizeAll leaves = leaves.length := by
  induction leaves with
  | nil => rfl
  | cons leaf others ih =>
    rw [Tree.sizeAll, Tree.size_eq, h leaf List.mem_cons_self,
      ih fun leaf hm => h leaf (List.mem_cons_of_mem _ hm), List.length_cons, Tree.sizeAll]
    omega

theorem sizeAll_map_leaves {α : Type} {leaf : α → Outline} (h : ∀ a, (leaf a).children = [])
    (l : List α) : Tree.sizeAll (l.map leaf) = l.length := by
  rw [sizeAll_leaves, List.length_map]
  intro tree hm
  obtain ⟨a, _, rfl⟩ := List.mem_map.1 hm
  exact h a

theorem size_ofDeclaration_le (relation : Relation) (declaration : Declaration) :
    (ofDeclaration relation declaration).size ≤ 2 := by
  rw [ofDeclaration, Tree.size_node, sizeAll_map_leaves fun _ => rfl]
  cases declaration.initializer with
  | none => exact Nat.le_succ 1
  | some => exact Nat.le_refl 2

theorem size_ofCall_le (relation : Relation) (name inner : Slice) :
    (ofCall relation name inner).size ≤ inner.cells.length + 2 := by
  rw [ofCall, Tree.size_node, sizeAll_map_leaves fun _ => rfl]
  have := List.length_filter_le (fun piece : Slice => !piece.trim.isEmpty) (inner.split 0x2C)
  have := inner.length_split_le 0x2C
  omega

/-- How far a return is read. What is read of any other statement without a heading is small. -/
def returnStop (slice : Slice) : Nat :=
  match (slice.after? "return").bind Slice.pastSemicolon? with
  | some after => after.start
  | none => slice.start + 1

theorem returnStop_bounds {slice : Slice} (h : slice.start < slice.stop) :
    slice.start < returnStop slice ∧ returnStop slice ≤ slice.stop := by
  rw [returnStop]
  cases hr : (slice.after? "return").bind Slice.pastSemicolon? with
  | none => exact ⟨Nat.lt_succ_self _, h⟩
  | some after =>
    rw [Option.bind_eq_some_iff] at hr
    obtain ⟨rest, hr, ha⟩ := hr
    obtain ⟨ht, hlt⟩ := Slice.after?_spec hr
    obtain ⟨ht', hlt'⟩ := Slice.pastSemicolon?_spec ha
    have hstop := after.start_le_stop
    rw [(ht'.trans ht).stop_eq] at hstop
    exact ⟨Nat.lt_trans hlt hlt', hstop⟩

theorem size_return?_le {slice : Slice} {outline : Outline}
    (h : return? slice = some outline) :
    slice.start < returnStop slice ∧ slice.start + outline.size ≤ returnStop slice + 1 := by
  obtain ⟨rest, stop, value, hr, hf, hv, rfl⟩ := return?_spec h
  have hstop : returnStop slice = stop + 1 := by
    rw [returnStop, hr, Option.bind_some, Slice.pastSemicolon?, hf]
    rfl
  have hlt := (Slice.after?_spec hr).2
  have hle := (Slice.find?_bounds hf).1
  have hvalue : value.cells.length ≤ stop - rest.start := by
    rw [hv]
    have := (Slice.isPart_trim (rest.toOffset stop)).length_le
    simp only [Slice.toOffset, Slice.take, List.length_take] at this ⊢
    omega
  have hcall : Tree.sizeAll (findCall? 0 value.start value.cells).toList ≤
      value.cells.length + 2 := by
    cases hc : findCall? 0 value.start value.cells with
    | none => exact Nat.zero_le _
    | some call =>
      obtain ⟨name, inner, rfl, hi⟩ := findCall?_spec hc
      have hsize := size_ofCall_le .call name inner
      have hle : inner.cells.length ≤ value.cells.length := hi.length_le
      change _ + 0 ≤ _
      omega
  rw [Tree.size_node, hstop]
  omega

section

variable {slice after : Slice} {outline : Outline} {levels : Nat} {below : Option Level}

theorem sizeRoom_ofDeclaration {declaration : Declaration} {relation : Relation}
    (h : Declaration.read? slice = some declaration) :
    4 * slice.start + weigh (Function.const Item 1) [ofDeclaration relation declaration] ≤
      4 * returnStop slice := by
  have hsize := size_ofDeclaration_le relation declaration
  obtain ⟨_, hstart, hstop, _⟩ := Declaration.read?_spec h
  have hlt := (returnStop_bounds (Nat.lt_of_le_of_lt hstart hstop)).1
  rw [weigh_one]
  change 4 * slice.start + (_ + 0) ≤ _
  omega

theorem sizeRoom_return? (h : return? slice = some outline) :
    4 * slice.start + weigh (Function.const Item 1) [outline] ≤ 4 * returnStop slice := by
  obtain ⟨hlt, hsize⟩ := size_return?_le h
  rw [weigh_one]
  change 4 * slice.start + (outline.size + 0) ≤ 4 * returnStop slice
  omega

theorem sizeRoom_ofCall {heading : Heading} (h : slice.heading? = some heading) :
    4 * slice.start +
        weigh (Function.const Item 1) [ofCall .statement heading.name heading.inner] ≤
      4 * heading.after.start := by
  obtain ⟨_, _, _, _, hlt, hle⟩ := Slice.heading?_spec h
  have := size_ofCall_le .statement heading.name heading.inner
  rw [Slice.stop] at hle
  rw [weigh_one]
  change _ + (_ + 0) ≤ _
  omega

theorem sizeRoom_headed (h : Headed levels below slice outline after) :
    4 * slice.start + (1 + weigh (Function.const Item 1) h.leaves + 2 * 1) ≤
      4 * h.heading.after.start := by
  have hroom := h.room
  have hleaves : ∀ tree ∈ h.leaves, tree.children = [] := by
    intro tree hm
    obtain ⟨kind, relation, part, rfl, _, _⟩ := h.leaf_of_mem tree hm
    rfl
  rw [weigh_one, sizeAll_leaves hleaves]
  omega

theorem sizeRoom_function {function : FunctionDefinition}
    (h : FunctionDefinition.read? slice = some function) :
    4 * slice.start +
        (1 + weigh (Function.const Item 1) (function.parameters.map ofParameter) + 1) ≤
      4 * function.body.start := by
  have hroom := FunctionDefinition.length_parameters_le h
  have hlt := (FunctionDefinition.read?_spec h).2.2.2.1
  rw [weigh_one, sizeAll_map_leaves fun _ => rfl]
  omega

end

/-- One for every node, and room for four nodes at every byte. -/
def sizeBudget : Budget where
  weight := Function.const Item 1
  limit offset := 4 * offset
  stop := returnStop
  block := 1
  mono h := Nat.mul_le_mul_left 4 h
  stop_le h := (returnStop_bounds h).2
  block_le _ := Nat.le_refl 1
  relabel _ := Nat.le_refl 1
  declared := sizeRoom_ofDeclaration
  returned _ := sizeRoom_return?
  called := sizeRoom_ofCall
  headed := sizeRoom_headed
  function := sizeRoom_function

theorem size_ofText_le {text : Slice} (hf : ∀ cell ∈ text.cells, cell.IsFaithful)
    (h : InSequence returnStop text) : (ofText text).size ≤ 4 * (text.stop + 1) := by
  have hw := sizeBudget.weigh_ofText hf h
  change 4 * text.start + weigh (Function.const Item 1) _ ≤ 1 + 4 * text.stop at hw
  rw [weigh_one] at hw
  change _ + (_ + 0) ≤ _ at hw
  omega

/-- Whether a return holds no brace. -/
def PlainReturn (head : Slice) : Prop :=
  ∀ rest ∈ head.after? "return", ∀ after ∈ rest.pastSemicolon?,
    (rest.toOffset after.start).IsBraceless

instance (head : Slice) : Decidable (PlainReturn head) :=
  inferInstanceAs (Decidable (∀ rest ∈ head.after? "return", ∀ after ∈ rest.pastSemicolon?,
    (rest.toOffset after.start).IsBraceless))

/-- Whether a text is tidy and no return in it holds a brace. -/
structure IsSeamless (text : Slice) : Prop extends IsTidy text where
  returns : ∀ levels block, Visits text levels block → ∀ head ∈ block.heads .topLevel,
    (statement? levels (below levels) head).isSome → PlainReturn head

section

variable {text head : Slice} {start : Nat}

/-- A return that holds no brace is read to where the next statement may start. -/
theorem PlainReturn.returnStop_le (h : PlainReturn head) (hp : IsPaired head)
    (hlt : head.start < start) (hs : Starts false head start) : returnStop head ≤ start := by
  rw [returnStop]
  cases hr : (head.after? "return").bind Slice.pastSemicolon? with
  | none => exact hlt
  | some after =>
    obtain ⟨rest, hr, ha⟩ := Option.bind_eq_some_iff.1 hr
    have hrest := hp.continues_after? hr
    exact ((hp.of_follows hrest.follows).starts_pastSemicolon? ha (h rest hr after ha)
      (hrest.starts hs)).bounds.1

theorem returnStop_of_item? (h : (item? text head).isSome) : returnStop head = head.start + 1 := by
  have hnone : head.after? "return" = none := by
    rw [Option.eq_none_iff_forall_ne_some]
    intro rest hr
    obtain ⟨name, hw, hname⟩ := Slice.exists_word?_of_after? hr
    have hd := Declarator.read?_of_keyword hw (by rw [hname]; decide)
    rw [item?, FunctionDefinition.read?, global?, Declaration.read?, hd] at h
    cases h
  rw [returnStop, hnone]
  rfl

theorem IsSeamless.inSequence (hf : ∀ cell ∈ text.cells, cell.IsFaithful) (h : IsSeamless text) :
    InSequence returnStop text := by
  refine h.toIsTidy.inSequence hf (fun _ _ hi => Nat.le_of_eq (returnStop_of_item? hi)) ?_
  intro levels block hv head hm hs hp start hlt hstart
  exact (h.returns levels block hv head hm hs).returnStop_le hp hlt hstart

theorem isSeamless_iff : (IsTidy text ∧ ∀ entry ∈ visited text, ∀ head ∈ entry.2.heads .topLevel,
    (statement? entry.1 (below entry.1) head).isSome → PlainReturn head) ↔ IsSeamless text := by
  constructor
  · rintro ⟨htidy, hreturns⟩
    exact ⟨htidy, fun levels block hv => hreturns (levels, block) (mem_visited.2 hv)⟩
  · intro h
    refine ⟨h.toIsTidy, ?_⟩
    rintro ⟨levels, block⟩ hm
    exact h.returns levels block (mem_visited.1 hm)

instance (text : Slice) : Decidable (IsSeamless text) :=
  decidable_of_iff _ isSeamless_iff

end

end Outline

/-- A text whose statements are read one after the other has a tree no larger than four times as
many nodes as the text has bytes, and four more. A seamless text is such a text. -/
theorem size_structuralTree_le (text : String) :
    (Outline.InSequence Outline.returnStop (Source.ofString text).view →
      (structuralTree text).size ≤ 4 * (text.utf8ByteSize + 1)) ∧
    (Outline.IsSeamless (Source.ofString text).view →
      (structuralTree text).size ≤ 4 * (text.utf8ByteSize + 1)) := by
  have hf := Source.isFaithful_view text
  rw [structuralTree, Source.tree, Tree.size_map, ← Source.stop_view]
  exact ⟨Outline.size_ofText_le hf, fun h => Outline.size_ofText_le hf (h.inSequence hf)⟩

theorem size_structuralTree_branches :
    (structuralTree "void f() \x7b return \x7b \x7d; \x7d").size ≤
        4 * ("void f() \x7b return \x7b \x7d; \x7d".utf8ByteSize + 1) ∧
      (structuralTree Outline.branches).size ≤ 4 * (Outline.branches.utf8ByteSize + 1) :=
  ⟨(size_structuralTree_le _).1 (by decide +kernel), (size_structuralTree_le _).2 (by decide +kernel)⟩

/-- A function with conditionals whose branches end in a brace and not in a semicolon. -/
def conditionals (count : Nat) : String :=
  "a b()\x7b" ++ String.join (List.replicate count "if()a\x7b\x7d") ++ ";\x7d"

/-- Each branch goes on to the last semicolon, so every conditional is read again in all earlier
ones. -/
theorem lt_size_conditionals :
    4 * ((conditionals 7).utf8ByteSize + 1) < (structuralTree (conditionals 7)).size := by
  decide +kernel

end CodeOutline
