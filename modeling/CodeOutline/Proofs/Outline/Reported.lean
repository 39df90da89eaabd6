import CodeOutline.Proofs.Outline.Tidy
import CodeOutline.Proofs.Source.Mask
import Mathlib.Data.List.Nodup

namespace CodeOutline

/-- Whether a node stands for an item, a statement or a conditional. -/
def isReported (kind : NodeKind) (relation : Relation) : Bool :=
  relation = .item || relation = .statement || kind = .ifStatement

/-- The offsets of the items, statements and conditionals of a tree. -/
def reportedOffsets (tree : Node) : List Nat :=
  (tree.walk.filter fun label => isReported label.kind label.relation).map (·.offset)

namespace Outline

def isReported (item : Item) : Bool :=
  CodeOutline.isReported item.kind item.relation

def reported (outlines : List Outline) : List Nat :=
  ((outlines.flatMap Tree.walk).filter isReported).map Item.offset

theorem reportedOffsets_map (source : Source) (outline : Outline) :
    reportedOffsets (outline.map source.describe) = reported [outline] := by
  rw [reportedOffsets, Tree.walk_map, List.filter_map, List.map_map, reported,
    List.flatMap_singleton]
  rfl

/-- One for a node that is reported at the given offset. -/
def reportWeight (offset : Nat) (item : Item) : Nat :=
  if isReported item ∧ item.offset = offset then 1 else 0

theorem weigh_reportWeight (offset : Nat) (outlines : List Outline) :
    weigh (reportWeight offset) outlines = (reported outlines).count offset := by
  rw [weigh, reported]
  generalize outlines.flatMap Tree.walk = items
  induction items with
  | nil => rfl
  | cons item others ih =>
    rw [List.map_cons, List.sum_cons, ih, reportWeight]
    by_cases hr : isReported item
    · rw [List.filter_cons_of_pos hr, List.map_cons, List.count_cons]
      by_cases ho : item.offset = offset
      · simp [hr, ho, Nat.add_comm]
      · simp [ho]
    · rw [List.filter_cons_of_neg hr]
      simp [hr]

theorem reportWeight_le (offset : Nat) (item : Item) :
    reportWeight offset item ≤ if item.offset = offset then 1 else 0 := by
  rw [reportWeight]
  split
  · next h => exact Nat.le_of_eq (if_pos h.2).symm
  · exact Nat.zero_le _

theorem weigh_leaves {offset : Nat} {leaves : List Outline}
    (h : ∀ tree ∈ leaves, isReported tree.label = false ∧ tree.children = []) :
    weigh (reportWeight offset) leaves = 0 := by
  induction leaves with
  | nil => rfl
  | cons tree others ih =>
    obtain ⟨item, children⟩ := tree
    obtain ⟨hr, hc⟩ := h _ List.mem_cons_self
    simp only [Tree.label, Tree.children] at hr hc
    rw [weigh_cons, ih fun tree hm => h tree (List.mem_cons_of_mem _ hm), weigh_node, hc,
      reportWeight, hr]
    rfl

theorem weigh_ofCall (offset : Nat) (relation : Relation) (name inner : Slice) :
    weigh (reportWeight offset) [ofCall relation name inner] =
      reportWeight offset ⟨.callExpression, relation, name.start, some name.text, .absent⟩ := by
  rw [ofCall, weigh_node, weigh_leaves, Nat.add_zero]
  intro tree hm
  obtain ⟨piece, _, rfl⟩ := List.mem_map.1 hm
  exact ⟨rfl, rfl⟩

/-- Room for one node at the offset, and for none elsewhere. -/
def reportRoom (offset position : Nat) : Nat :=
  if offset < position then 1 else 0

theorem reportRoom_mono {offset left right : Nat} (h : left ≤ right) :
    reportRoom offset left ≤ reportRoom offset right := by
  rw [reportRoom, reportRoom]
  split
  · exact Nat.le_of_eq (if_pos (by omega)).symm
  · exact Nat.zero_le _

section

variable {offset start stop levels : Nat} {slice after : Slice} {item : Item} {outline : Outline}
  {relation : Relation} {below : Option Level}

theorem reportRoom_add (hs : item.offset = start) (hlt : start < stop) :
    reportRoom offset start + reportWeight offset item ≤ reportRoom offset stop := by
  have hw := reportWeight_le offset item
  rw [hs] at hw
  rw [reportRoom, reportRoom]
  split
  · rw [if_neg (by omega)] at hw
    rw [if_pos (by omega)]
    omega
  · split at hw
    · rw [if_pos (by omega)]
      omega
    · omega

theorem reportWeight_block (h : relation ∈ [.body, .consequent, .alternative]) (start : Nat) :
    reportWeight offset ⟨.blockStatement, relation, start, none, .absent⟩ ≤ 0 := by
  simp only [List.mem_cons, List.not_mem_nil, or_false] at h
  rcases h with rfl | rfl | rfl <;> exact Nat.le_refl 0

theorem reportWeight_relabel (h : item.relation = .statement) :
    reportWeight offset { item with relation := .alternative } ≤ reportWeight offset item := by
  have hr : isReported item := by simp [isReported, CodeOutline.isReported, h]
  have hw : reportWeight offset item = if item.offset = offset then 1 else 0 := by
    simp only [reportWeight, hr, true_and]
  rw [hw]
  exact reportWeight_le offset { item with relation := .alternative }

theorem reportRoom_ofDeclaration {declaration : Declaration}
    (h : Declaration.read? slice = some declaration) :
    reportRoom offset slice.start + weigh (reportWeight offset) [ofDeclaration relation declaration] ≤
      reportRoom offset (slice.start + 1) := by
  have hleaves : ∀ tree ∈ declaration.initializer.toList.map (leaf .initializer .initializer),
      isReported tree.label = false ∧ tree.children = [] := by
    intro tree hm
    obtain ⟨value, _, rfl⟩ := List.mem_map.1 hm
    exact ⟨rfl, rfl⟩
  rw [ofDeclaration, weigh_node, weigh_leaves hleaves]
  exact reportRoom_add (Declaration.read?_spec h).1 (Nat.lt_succ_self _)

theorem reportRoom_return? (h : return? slice = some outline) :
    reportRoom offset slice.start + weigh (reportWeight offset) [outline] ≤
      reportRoom offset (slice.start + 1) := by
  obtain ⟨rest, stop, value, _, _, _, rfl⟩ := return?_spec h
  have hcall : weigh (reportWeight offset) (findCall? 0 value.start value.cells).toList = 0 := by
    cases hc : findCall? 0 value.start value.cells with
    | none => rfl
    | some call =>
      obtain ⟨name, inner, rfl, _⟩ := findCall?_spec hc
      exact weigh_ofCall ..
  rw [weigh_node, hcall]
  exact reportRoom_add rfl (Nat.lt_succ_self _)

theorem reportRoom_ofCall {heading : Heading} (h : slice.heading? = some heading) :
    reportRoom offset slice.start +
        weigh (reportWeight offset) [ofCall .statement heading.name heading.inner] ≤
      reportRoom offset heading.after.start := by
  obtain ⟨_, _, _, hs, hlt, hle⟩ := Slice.heading?_spec h
  have := heading.inner.start_le_stop
  rw [weigh_ofCall]
  exact reportRoom_add hs (by omega)

theorem reportRoom_headed (h : Headed levels below slice outline after) :
    reportRoom offset slice.start +
        (reportWeight offset h.item + weigh (reportWeight offset) h.leaves + 2 * 0) ≤
      reportRoom offset h.heading.after.start := by
  obtain ⟨_, _, _, _, hlt, hle⟩ := Slice.heading?_spec h.read
  have := h.heading.inner.start_le_stop
  have hleaves : ∀ tree ∈ h.leaves, isReported tree.label = false ∧ tree.children = [] := by
    intro tree hm
    obtain ⟨kind, relation, part, rfl, hc, _⟩ := h.leaf_of_mem tree hm
    simp only [clauses, List.mem_cons, List.not_mem_nil, or_false, Prod.mk.injEq] at hc
    rcases hc with ⟨rfl, rfl⟩ | ⟨rfl, rfl⟩ | ⟨rfl, rfl⟩ | ⟨rfl, rfl⟩ <;> exact ⟨rfl, rfl⟩
  rw [weigh_leaves hleaves]
  exact reportRoom_add h.offset (by omega)

theorem reportRoom_function {function : FunctionDefinition}
    (h : FunctionDefinition.read? slice = some function) :
    reportRoom offset slice.start + (reportWeight offset (ofFunction function).label +
        weigh (reportWeight offset) (function.parameters.map ofParameter) + 0) ≤
      reportRoom offset function.body.start := by
  obtain ⟨hs, hle, _, hlt, _⟩ := FunctionDefinition.read?_spec h
  have hparameters : ∀ tree ∈ function.parameters.map ofParameter,
      isReported tree.label = false ∧ tree.children = [] := by
    intro tree hm
    obtain ⟨parameter, _, rfl⟩ := List.mem_map.1 hm
    exact ⟨rfl, rfl⟩
  rw [weigh_leaves hparameters]
  exact reportRoom_add hs (by omega)

end

/-- One for each node reported at an offset, and room for one at the offset alone. -/
def reportBudget (offset : Nat) : Budget where
  weight := reportWeight offset
  limit := reportRoom offset
  stop slice := slice.start + 1
  block := 0
  mono := reportRoom_mono
  stop_le h := h
  block_le h := reportWeight_block h _
  relabel := reportWeight_relabel
  declared := reportRoom_ofDeclaration
  returned _ := reportRoom_return?
  called := reportRoom_ofCall
  headed := reportRoom_headed
  function := reportRoom_function

theorem nodup_reported {text : Slice} (hf : ∀ cell ∈ text.cells, cell.IsFaithful)
    (h : InSequence (·.start + 1) text) : (reported [ofText text]).Nodup := by
  rw [List.nodup_iff_count_le_one]
  intro offset
  rw [← weigh_reportWeight]
  have hw := (reportBudget offset).weigh_ofText hf h
  have hroot : (reportBudget offset).weight ⟨.program, .root, 0, none, .absent⟩ = 0 := rfl
  have hlimit (position : Nat) : (reportBudget offset).limit position ≤ 1 := by
    change reportRoom offset position ≤ 1
    rw [reportRoom]
    split <;> decide
  have := hlimit text.stop
  exact Nat.le_trans (Nat.le_add_left ..) (Nat.le_trans hw (by omega))

end Outline

/-- In a text whose statements are read one after the other no statement is reported twice. A tidy
text is such a text. -/
theorem nodup_reportedOffsets (text : String) :
    (Outline.InSequence (·.start + 1) (Source.ofString text).view →
      (reportedOffsets (structuralTree text)).Nodup) ∧
    (Outline.IsTidy (Source.ofString text).view →
      (reportedOffsets (structuralTree text)).Nodup) := by
  have hf := Source.isFaithful_view text
  rw [structuralTree, Source.tree, Outline.reportedOffsets_map]
  refine ⟨Outline.nodup_reported hf, fun h => Outline.nodup_reported hf ?_⟩
  exact h.inSequence hf (fun _ _ _ => Nat.le_refl _) fun _ _ _ _ _ _ _ _ hlt _ => hlt

theorem nodup_reportedOffsets_branches :
    (reportedOffsets (structuralTree "void f() \x7b if (a) switch (b) \x7b \x7d \x7d")).Nodup ∧
      (reportedOffsets (structuralTree Outline.branches)).Nodup :=
  ⟨(nodup_reportedOffsets _).1 (by decide +kernel), (nodup_reportedOffsets _).2 (by decide +kernel)⟩

/-- The branch of the conditional goes on to the semicolon, over the brace that ends its statement. -/
theorem not_nodup_reportedOffsets : ¬ (reportedOffsets (structuralTree
    "void f() \x7b if (a) switch (b) \x7b \x7d c(); \x7d")).Nodup := by
  decide +kernel

end CodeOutline
