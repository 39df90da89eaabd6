import CodeOutline.Proofs.Outline.Opening
import CodeOutline.Proofs.Shape.Start

namespace CodeOutline

open Slice (IsPart IsTail)

namespace Outline

/-- Whether a block begins at an offset with a byte that is not blank, or behind a brace there. -/
def Encloses (text : Slice) (offset : Nat) (block : Slice) : Prop :=
  (offset = block.start ∧ Slice.IsSolid block) ∨ ∃ opening, IsPart ⟨offset, [opening]⟩ text ∧
    opening.byte = 0x7B ∧ block.start = offset + 1

/-- Whether a tree stands for no function, and for a visited block if it has variables. -/
structure Sound (text : Slice) (tree : Outline) : Prop where
  kind : tree.label.kind ≠ .functionDeclaration
  declared : ∀ child ∈ tree.children, child.label.kind = .variableDeclaration →
    tree.label.kind = .blockStatement ∧ ∃ levels block head declaration,
      Visits text levels block ∧ Encloses text tree.label.offset block ∧
        head ∈ block.heads .topLevel ∧ Declaration.read? head = some declaration ∧
          child = ofDeclaration .statement declaration

def Settled (text : Slice) (outline : Outline) : Prop :=
  ∀ tree ∈ outline.subtrees, Sound text tree

variable {text slice block body inner after : Slice} {levels : Nat} {item : Item}
  {relation : Relation} {outline tree : Outline} {children : List Outline}

theorem settled_node : Settled text (.node item children) ↔
    Sound text (.node item children) ∧ ∀ child ∈ children, Settled text child := by
  simp only [Settled, Tree.mem_subtrees_node]
  constructor
  · intro h
    exact ⟨h _ (.inl rfl), fun child hc tree ht => h tree (.inr ⟨child, hc, ht⟩)⟩
  · rintro ⟨hs, hc⟩ tree (rfl | ⟨child, hm, ht⟩)
    · exact hs
    · exact hc child hm tree ht

theorem sound_of_ne (hk : item.kind ≠ .functionDeclaration)
    (h : ∀ child ∈ children, child.label.kind ≠ .variableDeclaration) :
    Sound text (.node item children) :=
  ⟨hk, fun child hm hc => absurd hc (h child hm)⟩

theorem settled_leaf {kind : NodeKind} (hk : kind ≠ .functionDeclaration) :
    Settled text (leaf kind relation slice) := by
  rw [leaf, settled_node]
  exact ⟨sound_of_ne hk fun child hm => absurd hm List.not_mem_nil,
    fun child hm => absurd hm List.not_mem_nil⟩

theorem settled_of_leaves (hk : item.kind ≠ .functionDeclaration)
    (h : ∀ child ∈ children, ∃ kind relation slice, child = leaf kind relation slice ∧
      kind ≠ .functionDeclaration ∧ kind ≠ .variableDeclaration) :
    Settled text (.node item children) := by
  rw [settled_node]
  constructor
  · apply sound_of_ne hk
    intro child hm
    obtain ⟨kind, relation, slice, rfl, _, hv⟩ := h child hm
    exact hv
  · intro child hm
    obtain ⟨kind, relation, slice, rfl, hf, _⟩ := h child hm
    exact settled_leaf hf

theorem settled_ofDeclaration (declaration : Declaration) :
    Settled text (ofDeclaration relation declaration) := by
  apply settled_of_leaves (by simp)
  intro child hm
  obtain ⟨value, _, rfl⟩ := List.mem_map.1 hm
  exact ⟨_, _, _, rfl, by simp, by simp⟩

theorem settled_ofCall (name : Slice) : Settled text (ofCall relation name inner) := by
  apply settled_of_leaves (by simp)
  intro child hm
  obtain ⟨piece, _, rfl⟩ := List.mem_map.1 hm
  exact ⟨_, _, _, rfl, by simp, by simp⟩

theorem settled_return? (h : return? slice = some outline) : Settled text outline := by
  obtain ⟨_, _, value, _, _, _, rfl⟩ := return?_spec h
  have hcall : ∀ child ∈ (findCall? 0 value.start value.cells).toList,
      ∃ name inner, child = ofCall .call name inner := by
    intro child hm
    obtain ⟨name, inner, he, _⟩ := findCall?_spec (Option.mem_toList.1 hm)
    exact ⟨name, inner, he⟩
  rw [settled_node]
  constructor
  · apply sound_of_ne (by simp)
    intro child hm
    obtain ⟨name, inner, rfl⟩ := hcall child hm
    simp [ofCall, Tree.label]
  · intro child hm
    obtain ⟨name, inner, rfl⟩ := hcall child hm
    exact settled_ofCall name

theorem settled_relabel (h : Settled text outline) :
    Settled text (outline.relabel fun item => { item with relation := .alternative }) := by
  obtain ⟨item, children⟩ := outline
  rw [settled_node] at h
  rw [Tree.relabel, settled_node]
  exact ⟨⟨h.1.kind, h.1.declared⟩, h.2⟩

theorem statement?_declared (h : statement? levels (below levels) slice = some outline)
    (hk : outline.label.kind = .variableDeclaration) :
    ∃ declaration, Declaration.read? slice = some declaration ∧
      outline = ofDeclaration .statement declaration := by
  cases statement?_spec h with
  | declared hd he => exact ⟨_, hd, he⟩
  | returned _ hr =>
    obtain ⟨_, _, _, _, _, _, rfl⟩ := return?_spec hr
    cases hk
  | called hc =>
    obtain ⟨_, _, rfl⟩ := callStatement?_spec hc
    cases hk
  | headed hh =>
    have hkind := hh.kind
    rw [hh.outline_eq] at hk
    rw [show hh.item.kind = .variableDeclaration from hk] at hkind
    simp at hkind

theorem encloses_of_bodyRange? (h : bodyRange? levels slice = some (body, inner, after))
    (hp : IsPart slice text) : Encloses text body.start inner := by
  obtain ⟨hn, _, hafter, _, hlt⟩ := bodyRange?_spec h
  have hbody := (Slice.next?_spec hn).2.1.isPart.trans hp
  obtain ⟨first, others, hcells, hblank⟩ := Slice.isSolid_next? hn
  rw [bodyRange?, hn, Option.bind_some, Option.map_eq_some_iff] at h
  obtain ⟨⟨inner', after'⟩, hr, he⟩ := h
  cases he
  split at hr
  · next hb =>
    have hstart : inner.start = body.start + 1 := by
      cases hblock : body.block? with
      | none =>
        rw [hblock] at hr
        cases hr
        rfl
      | some found =>
        rw [hblock] at hr
        cases hr
        rw [Slice.block?, Option.map_eq_some_iff] at hblock
        obtain ⟨close, _, he⟩ := hblock
        cases he
        rfl
    obtain ⟨start, cells⟩ := body
    cases cells with
    | nil => cases hb
    | cons opening rest =>
      have hopening : IsPart ⟨start, [opening]⟩ ⟨start, opening :: rest⟩ := ⟨[], rest, rfl, rfl⟩
      exact .inr ⟨opening, hopening.trans hbody, of_decide_eq_true hb, hstart⟩
  · rw [Option.map_eq_some_iff] at hr
    obtain ⟨rest, _, he⟩ := hr
    cases he
    obtain ⟨count, hcount⟩ : ∃ count, after.start - body.start = count + 1 :=
      ⟨after.start - body.start - 1, by omega⟩
    refine .inl ⟨rfl, first, others.take count, ?_, hblank⟩
    rw [Slice.toOffset, Slice.take, hcells, hcount, List.take_succ_cons]

/-- Whether what is read in a block is settled. -/
def BlockSettled (text : Slice) (levels : Nat) (block : Slice) : Prop :=
  Visits text levels block ∧ ∀ outline ∈ (level levels).block block, Settled text outline

theorem BlockSettled.node (h : BlockSettled text levels block) {offset : Nat}
    (he : Encloses text offset block) :
    Settled text (.node ⟨.blockStatement, relation, offset, none, .absent⟩
      ((level levels).block block)) := by
  rw [settled_node]
  refine ⟨⟨by simp [Tree.label], fun child hm hk => ?_⟩, h.2⟩
  obtain ⟨head, hh, hs⟩ := mem_level_block.1 hm
  obtain ⟨declaration, hd, hc⟩ := statement?_declared hs hk
  exact ⟨rfl, levels, block, head, declaration, h.1, he, hh, hd, hc⟩

theorem settled_body? (h : body? levels (below levels) relation slice = some (outline, after))
    (hp : IsPart slice text)
    (hread : ∀ next body inner after, levels = next + 1 →
      bodyRange? levels slice = some (body, inner, after) → BlockSettled text next inner) :
    Settled text outline ∧ outline.label.kind = .blockStatement := by
  obtain ⟨body, inner, hr, rfl⟩ := body?_spec h
  refine ⟨?_, rfl⟩
  cases levels with
  | zero => exact settled_of_leaves (by simp) fun child hm => absurd hm List.not_mem_nil
  | succ next => exact (hread next _ _ _ rfl hr).node (encloses_of_bodyRange? hr hp)

/-- Whether the blocks that are read for a statement are settled. -/
def SettledBelow (text : Slice) (levels : Nat) (slice : Slice) : Prop :=
  ∀ levels' last next body inner, Chained levels slice levels' last → levels' = next + 1 →
    Opens next last body inner → BlockSettled text next inner

theorem settled_bodies {heading : Heading} {bodies : List Outline} (hp : IsPart slice text)
    (hh : slice.heading? = some heading) (hk : heading.name.text ∈ ["if", "for", "while"])
    (h : Bodies levels (below levels) heading.name.text heading.after bodies after)
    (hread : SettledBelow text levels slice)
    (hchain : ∀ next other conditional rest, levels = next + 1 → IsPart other text →
      conditional? next (below next) other = some (conditional, rest) →
        SettledBelow text next other → Settled text conditional) :
    ∀ outline ∈ bodies, Settled text outline ∧ outline.label.kind ≠ .variableDeclaration := by
  have hafter : IsPart heading.after text := (Slice.heading?_spec hh).2.2.1.isPart.trans hp
  have hbody {relation outline after}
      (hb : body? levels (below levels) relation heading.after = some (outline, after)) :
      Settled text outline ∧ outline.label.kind = .blockStatement := by
    refine settled_body? hb hafter ?_
    rintro next body inner after rfl hr
    exact hread _ _ _ _ _ (.refl _ _) rfl (.body hh hk hr)
  have hblock {outline : Outline} (ho : Settled text outline ∧ outline.label.kind = .blockStatement) :
      Settled text outline ∧ outline.label.kind ≠ .variableDeclaration :=
    ⟨ho.1, by rw [ho.2]; simp⟩
  cases h with
  | none => exact fun outline hm => absurd hm List.not_mem_nil
  | one hb =>
    intro outline hm
    rw [List.mem_singleton.1 hm]
    exact hblock (hbody hb)
  | two hi hb he ha =>
    intro outline hm
    simp only [List.mem_cons, List.not_mem_nil, or_false] at hm
    rcases hm with rfl | rfl
    · exact hblock (hbody hb)
    obtain ⟨body, inner, hr, _⟩ := body?_spec hb
    have hother := ((isTail_of_else he).trans (isPart_of_bodyRange? hr).2.1).isPart.trans hafter
    rcases alternative?_spec ha with ⟨next, conditional, other, rfl, hn, hc, rfl⟩ | ⟨hc, ha⟩
    · have hcond := hchain next other conditional _ rfl
        ((Slice.next?_spec hn).2.1.isPart.trans hother) hc
        (fun _ _ _ _ _ hs => hread _ _ _ _ _ (.next hh hi hr he hn (by rw [hc]; rfl) hs))
      refine ⟨settled_relabel hcond, ?_⟩
      obtain ⟨hheaded⟩ := conditional?_spec hc
      have hkind := hheaded.kind
      rw [hheaded.outline_eq]
      intro hv
      rw [show hheaded.item.kind = .variableDeclaration from hv] at hkind
      simp at hkind
    · refine hblock (settled_body? ha hother ?_)
      rintro next body' inner' after' rfl hr'
      exact hread _ _ _ _ _ (.refl _ _) rfl (.alternative hh hi hr he (hc _ rfl) hr')

theorem settled_headed (h : Headed levels (below levels) slice outline after)
    (hp : IsPart slice text) (hread : SettledBelow text levels slice) : Settled text outline := by
  induction levels using Nat.strongRecOn generalizing slice outline after with
  | ind levels ih =>
    have hbodies := settled_bodies hp h.read h.keyword h.follow hread (by
      rintro next other conditional rest rfl ho hc hr
      obtain ⟨hheaded⟩ := conditional?_spec hc
      exact ih next (Nat.lt_succ_self next) hheaded ho hr)
    have hleaves : ∀ child ∈ h.leaves, Settled text child ∧
        child.label.kind ≠ .variableDeclaration := by
      intro child hm
      obtain ⟨kind, relation, part, rfl, hk, _⟩ := h.leaf_of_mem child hm
      have hne : kind ≠ .functionDeclaration ∧ kind ≠ .variableDeclaration := by
        constructor <;> rintro rfl <;> simp [clauses] at hk
      exact ⟨settled_leaf hne.1, hne.2⟩
    have hall : ∀ child ∈ h.leaves ++ h.bodies, Settled text child ∧
        child.label.kind ≠ .variableDeclaration := by
      intro child hm
      exact (List.mem_append.1 hm).elim (hleaves child) (hbodies child)
    have hkind : h.item.kind ≠ .functionDeclaration := by
      intro hk
      have := h.kind
      rw [hk] at this
      simp at this
    rw [h.outline_eq, settled_node]
    exact ⟨sound_of_ne hkind fun child hm => (hall child hm).2, fun child hm => (hall child hm).1⟩

theorem settled_statement (h : statement? levels (below levels) slice = some outline)
    (hp : IsPart slice text) (hread : SettledBelow text levels slice) : Settled text outline := by
  cases statement?_spec h with
  | declared _ he => exact he ▸ settled_ofDeclaration _
  | returned _ hr => exact settled_return? hr
  | called hc =>
    obtain ⟨_, _, rfl⟩ := callStatement?_spec hc
    exact settled_ofCall _
  | headed hh => exact settled_headed hh hp hread

theorem blockSettled_of_visits (hv : Visits text levels block) : BlockSettled text levels block := by
  induction levels using Nat.strongRecOn generalizing block with
  | ind levels ih =>
    refine ⟨hv, fun outline hm => ?_⟩
    obtain ⟨head, hh, hs⟩ := mem_level_block.1 hm
    refine settled_statement hs ((Slice.isTail_of_mem_heads hh).isPart.trans hv.isPart) ?_
    rintro levels' last next body inner hc rfl ho
    exact ih next hc.levels_le (.body hv hh (by rw [hs]; rfl) hc ho)

theorem settled_ofFunction {head : Slice} {function : FunctionDefinition}
    (hh : head ∈ text.heads .topLevel) (hf : FunctionDefinition.read? head = some function) :
    ∀ child ∈ (ofFunction function).children,
      Settled text child ∧ child.label.kind ≠ .variableDeclaration := by
  have hp := (Slice.isTail_of_mem_heads hh).isPart
  intro child hm
  rcases List.mem_append.1 hm with hm | hm
  · obtain ⟨parameter, _, rfl⟩ := List.mem_map.1 hm
    refine ⟨settled_of_leaves (by simp) fun child hm => absurd hm List.not_mem_nil, ?_⟩
    simp [ofParameter, Tree.label]
  · rw [List.mem_singleton.1 hm]
    obtain ⟨_, cell, rest, _, _, _, htail, hbyte, _, hstart⟩ :=
      FunctionDefinition.read?_opening hf
    have hcell : IsPart ⟨function.opening, [cell]⟩ ⟨function.opening, cell :: rest⟩ :=
      ⟨[], rest, rfl, rfl⟩
    exact ⟨(blockSettled_of_visits (.function hh hf)).node
      (.inr ⟨cell, hcell.trans (htail.isPart.trans hp), hbyte, hstart⟩), by simp [Tree.label]⟩

/-- What stands below the items of a text is sound. -/
theorem sound_of_mem_subtrees (h : tree ∈ (ofText text).subtrees) :
    tree = ofText text ∨ (∃ function ∈ FunctionDefinition.findAll text, tree = ofFunction function) ∨
      Sound text tree := by
  rw [ofText, Tree.mem_subtrees_node] at h
  rcases h with h | ⟨child, hm, ht⟩
  · exact .inl h
  have hm : child ∈ (ofText text).children := hm
  rw [mem_children_ofText] at hm
  rcases hm with ⟨function, hf, rfl⟩ | ⟨declaration, hd, rfl⟩
  · obtain ⟨head, hh, hr⟩ := FunctionDefinition.mem_findAll.1 hf
    rw [ofFunction, Tree.mem_subtrees_node] at ht
    rcases ht with ht | ⟨child, hc, ht⟩
    · exact .inr (.inl ⟨function, hf, ht⟩)
    · exact .inr (.inr ((settled_ofFunction hh hr child hc).1 tree ht))
  · exact .inr (.inr (settled_ofDeclaration declaration tree ht))

end Outline

end CodeOutline
