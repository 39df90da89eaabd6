import CodeOutline.Proofs.Outline.Concluded
import CodeOutline.Proofs.Outline.Described
import CodeOutline.Proofs.Outline.Exclusive

namespace CodeOutline

open Checked (isWhole_bodyRange?)
open Slice (IsPart IsTail IsWhole)

namespace Delimiter

variable {opener closer : UInt8} {depth position close : Nat} {left right : List Cell}

theorem closeFrom_append
    (h : closeFrom opener closer depth position (left ++ right) = some close) :
    (closeFrom opener closer depth position left).getD (position + left.length) ≤ close := by
  induction left generalizing depth position with
  | nil => exact (closeFrom_bounds h).1
  | cons cell left ih =>
    have hlength : position + (cell :: left).length = position + 1 + left.length := by
      rw [List.length_cons]
      omega
    rw [List.cons_append, closeFrom.eq_def] at h
    rw [hlength, closeFrom.eq_def]
    simp only at h ⊢
    split
    · next ho =>
      rw [if_pos ho] at h
      exact ih h
    · next ho =>
      rw [if_neg ho] at h
      split
      · next hc =>
        rw [if_pos hc] at h
        cases depth with
        | zero =>
          cases h
          exact Nat.le_refl _
        | succ depth => exact ih h
      · next hc =>
        rw [if_neg hc] at h
        exact ih h

theorem pairwise_place (start : Nat) (pieces : List (List Cell)) :
    (place start pieces).Pairwise fun left right => left.stop < right.start := by
  induction pieces generalizing start with
  | nil => exact .nil
  | cons piece others ih =>
    have hlater : ∀ (start : Nat) (pieces : List (List Cell)), ∀ slice ∈ place start pieces,
        start ≤ slice.start := by
      intro start pieces
      induction pieces generalizing start with
      | nil => exact fun slice hm => absurd hm List.not_mem_nil
      | cons piece others ih =>
        intro slice hm
        rcases List.mem_cons.1 hm with rfl | hm
        · exact Nat.le_refl _
        · have := ih _ slice hm
          omega
    refine List.pairwise_cons.2 ⟨fun slice hm => ?_, ih _⟩
    exact hlater _ others slice hm

/-- An opening brace of a text and the place of the brace that closes it. -/
structure Braced (text : List Cell) (opening close : Nat) : Prop where
  byte : text[opening]?.map Cell.byte = some 0x7B
  closing : closing text opening = .ok close

end Delimiter

/-- A node that is in the order of a text, with its children. -/
structure Tree.Arranged {α : Type} (kind : α → NodeKind) (offset : α → Nat) (text : List Cell)
    (tree : Tree α) : Prop where
  parent : ∀ child ∈ tree.children, offset tree.label ≤ offset child.label
  siblings : tree.children.Pairwise fun left right => offset left.label ≤ offset right.label
  strict : kind tree.label ∈ [.program, .blockStatement] →
    tree.children.Pairwise fun left right => offset left.label < offset right.label
  enclosed : kind tree.label = .blockStatement → ∀ close,
    Delimiter.Braced text (offset tree.label) close → ∀ child ∈ tree.children,
      ∀ label ∈ child.walk, offset tree.label < offset label ∧ offset label < close

theorem Tree.label_mem_walk {α : Type} (tree : Tree α) : tree.label ∈ tree.walk := by
  obtain ⟨label, children⟩ := tree
  rw [walk_node]
  exact List.mem_cons_self

theorem Tree.Arranged.map {α β : Type} {kind : α → NodeKind} {offset : α → Nat}
    {kind' : β → NodeKind} {offset' : β → Nat} {text : List Cell} {tree : Tree α} {f : α → β}
    (hk : ∀ label, kind' (f label) = kind label) (ho : ∀ label, offset' (f label) = offset label)
    (h : tree.Arranged kind offset text) : (tree.map f).Arranged kind' offset' text := by
  obtain ⟨label, children⟩ := tree
  obtain ⟨hparent, hsiblings, hstrict, henclosed⟩ := h
  have hlabel (child : Tree α) : offset' (child.map f).label = offset child.label := by
    obtain ⟨other, _⟩ := child
    rw [map_node]
    exact ho other
  rw [map_node]
  simp only [Tree.label, Tree.children] at hparent hsiblings hstrict henclosed
  constructor
  · intro mapped hm
    obtain ⟨child, hc, rfl⟩ := List.mem_map.1 hm
    rw [hlabel, Tree.label, ho]
    exact hparent child hc
  · refine List.pairwise_map.2 (hsiblings.imp ?_)
    intro left right hle
    rwa [hlabel, hlabel]
  · intro hkind
    rw [Tree.label, hk] at hkind
    refine List.pairwise_map.2 ((hstrict hkind).imp ?_)
    intro left right hlt
    rwa [hlabel, hlabel]
  · intro hkind close hclose mapped hm other hw
    obtain ⟨child, hc, rfl⟩ := List.mem_map.1 hm
    rw [walk_map] at hw
    obtain ⟨inner, hi, rfl⟩ := List.mem_map.1 hw
    rw [Tree.label, hk] at hkind
    rw [Tree.label, ho] at hclose ⊢
    rw [ho]
    exact henclosed hkind close hclose child hc inner hi

namespace Slice

variable {chars : List Char} {slice inner part : Slice} {separator : UInt8}

theorem start_trim_bounds (h : IsPart part slice) :
    slice.start ≤ part.trim.start ∧ part.trim.start ≤ slice.stop := by
  have hp := (isPart_trim part).trans h
  exact ⟨hp.start_le, Nat.le_trans part.trim.start_le_stop hp.stop_le⟩

theorem pairwise_split (slice : Slice) (separator : UInt8) :
    (slice.split separator).Pairwise fun left right => left.trim.stop < right.trim.start := by
  refine (Delimiter.pairwise_place _ _).imp ?_
  intro left right hlt
  have hl := (isPart_trim left).stop_le
  have hr := (isPart_trim right).start_le
  omega

end Slice

namespace Outline

variable {chars : List Char} {slice inner after body name : Slice} {kind : NodeKind}
  {relation : Relation} {item : Item} {children leaves bodies : List Outline} {outline : Outline}
  {levels : Nat}

/-- An outline all nodes of which are in the order of a text. -/
def Ordered (chars : List Char) (outline : Outline) : Prop :=
  ∀ tree ∈ outline.subtrees, tree.Arranged Item.kind Item.offset (Cell.layout chars)

theorem ordered_node : Ordered chars (.node item children) ↔
    (Tree.node item children).Arranged Item.kind Item.offset (Cell.layout chars) ∧
      ∀ child ∈ children, Ordered chars child := by
  simp only [Ordered, Tree.mem_subtrees_node]
  constructor
  · intro h
    exact ⟨h _ (.inl rfl), fun child hc tree ht => h tree (.inr ⟨child, hc, ht⟩)⟩
  · rintro ⟨hi, hc⟩ tree (rfl | ⟨child, hm, ht⟩)
    · exact hi
    · exact hc child hm tree ht

theorem ordered_of_siblings {offset : Nat} {name : Option String} {wording : Wording}
    (hk : kind ∉ [.program, .blockStatement]) (hp : ∀ child ∈ children, offset ≤ child.label.offset)
    (hs : children.Pairwise fun left right => left.label.offset ≤ right.label.offset)
    (hc : ∀ child ∈ children, Ordered chars child) :
    Ordered chars (.node ⟨kind, relation, offset, name, wording⟩ children) := by
  rw [ordered_node]
  refine ⟨⟨hp, hs, fun hm => absurd hm hk, fun hb => absurd ?_ hk⟩, hc⟩
  have hblock : kind = .blockStatement := hb
  rw [hblock]
  decide

theorem ordered_leaf (hk : kind ∉ [.program, .blockStatement]) (part : Slice) :
    Ordered chars (leaf kind relation part) :=
  ordered_of_siblings hk (fun _ hc => absurd hc List.not_mem_nil) .nil
    (fun _ hc => absurd hc List.not_mem_nil)

theorem ordered_relabel {f : Item → Item}
    (hf : ∀ item, f item = { item with relation := (f item).relation })
    (h : Ordered chars outline) : Ordered chars (outline.relabel f) := by
  obtain ⟨item, children⟩ := outline
  rw [ordered_node] at h
  rw [Tree.relabel, ordered_node, hf]
  exact ⟨⟨h.1.parent, h.1.siblings, h.1.strict, h.1.enclosed⟩, h.2⟩

theorem pairwise_toList {α : Type} (found : Option α) (R : α → α → Prop) :
    found.toList.Pairwise R := by
  cases found with
  | none => exact .nil
  | some value => exact List.pairwise_singleton R value

theorem ordered_ofDeclaration {declaration : Declaration}
    (h : Declaration.read? slice = some declaration) :
    Ordered chars (ofDeclaration relation declaration) := by
  obtain ⟨hstart, _, _, hvalue⟩ := Declaration.read?_spec h
  rw [ofDeclaration]
  apply ordered_of_siblings (by decide)
  · intro child hc
    obtain ⟨value, hv, rfl⟩ := List.mem_map.1 hc
    have hbounds := Slice.start_trim_bounds (hvalue value (Option.mem_toList.1 hv))
    exact hstart ▸ hbounds.1
  · exact List.pairwise_map.2 (pairwise_toList _ _)
  · intro child hc
    obtain ⟨value, _, rfl⟩ := List.mem_map.1 hc
    exact ordered_leaf (by decide) value

theorem ordered_ofCall (hn : name.start ≤ inner.start) :
    Ordered chars (ofCall relation name inner) := by
  rw [ofCall]
  apply ordered_of_siblings (by decide)
  · intro child hc
    obtain ⟨piece, hm, rfl⟩ := List.mem_map.1 hc
    have hbounds := Slice.start_trim_bounds (Slice.isPart_split (List.mem_filter.1 hm).1)
    exact Nat.le_trans hn hbounds.1
  · refine List.pairwise_map.2 (((inner.pairwise_split 0x2C).filter _).imp ?_)
    intro left right hlt
    have hle := left.trim.start_le_stop
    exact Nat.le_of_lt (Nat.lt_of_le_of_lt hle hlt)
  · intro child hc
    obtain ⟨piece, _, rfl⟩ := List.mem_map.1 hc
    exact ordered_leaf (by decide) piece

theorem ordered_return? (h : return? slice = some outline) : Ordered chars outline := by
  obtain ⟨rest, stop, value, ha, hf, rfl, rfl⟩ := return?_spec h
  have hvalue : IsPart (rest.toOffset stop).trim slice :=
    (Slice.isPart_trim _).trans ((Slice.isPart_toOffset ..).trans (Slice.after?_spec ha).1.isPart)
  have hcall : ∀ child ∈ (findCall? 0 (rest.toOffset stop).trim.start
      (rest.toOffset stop).trim.cells).toList,
        slice.start ≤ child.label.offset ∧ Ordered chars child := by
    intro child hc
    obtain ⟨tail, name, list, inner, after, ht, ho, hb, rfl⟩ :=
      findCall?_begins (Option.mem_toList.1 hc)
    obtain ⟨_, hname, hlt, _⟩ := Slice.opening?_spec ho
    have hinner := (Slice.block?_spec hb).2.2.1
    have htail := ht.isPart.start_le
    have hstart := hvalue.start_le
    simp only at htail
    refine ⟨?_, ordered_ofCall (by omega)⟩
    change slice.start ≤ name.start
    omega
  apply ordered_of_siblings (by decide) (fun child hc => (hcall child hc).1) (pairwise_toList _ _)
  exact fun child hc => (hcall child hc).2

theorem ordered_callStatement? (h : callStatement? slice = some outline) :
    Ordered chars outline := by
  obtain ⟨heading, hh, rfl⟩ := callStatement?_spec h
  obtain ⟨_, _, _, hname, hlt, _⟩ := Slice.heading?_spec hh
  exact ordered_ofCall (by omega)

variable (inner) in
theorem clause_le {first second : Nat} (h : first < second) :
    (clause inner first).trim.start ≤ (clause inner second).trim.start := by
  have hfirst := Slice.start_trim_bounds (isPart_clause inner first)
  cases hs : (inner.split 0x3B)[second]? with
  | none =>
    have hsecond := Slice.start_trim_bounds (IsPart.refl (clause inner second))
    have hstop : (clause inner second).start = inner.stop := by
      rw [clause, hs]
      rfl
    omega
  | some right =>
    obtain ⟨hlt, hright⟩ := List.getElem?_eq_some_iff.1 hs
    have hleft := List.getElem?_eq_getElem (Nat.lt_trans h hlt)
    have horder := List.pairwise_iff_getElem.1 (inner.pairwise_split 0x3B) first second
      (Nat.lt_trans h hlt) hlt h
    rw [clause, clause, hleft, hs, ← hright]
    exact Nat.le_of_lt (Nat.lt_of_le_of_lt (Slice.start_le_stop _) horder)

theorem pairwise_clauses (h : Clauses inner kind leaves) :
    leaves.Pairwise fun left right => left.label.offset ≤ right.label.offset := by
  cases h with
  | conditional | whileLoop => exact List.pairwise_singleton _ _
  | forLoop =>
    have h01 := clause_le inner (show 0 < 1 by decide)
    have h02 := clause_le inner (show 0 < 2 by decide)
    have h12 := clause_le inner (show 1 < 2 by decide)
    simp only [List.pairwise_cons, List.mem_cons, List.not_mem_nil, or_false, forall_eq_or_imp,
      forall_eq, false_imp_iff, implies_true, List.Pairwise.nil, and_true]
    exact ⟨⟨h01, h02⟩, h12⟩

variable (chars) in
theorem bounds_clauses (h : Clauses inner kind leaves) : ∀ tree ∈ leaves,
    Ordered chars tree ∧ inner.start ≤ tree.label.offset ∧ tree.label.offset ≤ inner.stop := by
  intro tree hm
  obtain ⟨kind, relation, part, rfl, hk, hp⟩ := h.leaf_of_mem tree hm
  have hkinds : ∀ entry ∈ clauses, entry.1 ∉ [.program, .blockStatement] := by decide
  exact ⟨ordered_leaf (hkinds _ hk) part, Slice.start_trim_bounds hp⟩

section

variable {P : Nat → Slice → Outline → Prop}

theorem Branch.start_le (h : Branch P levels slice outline after) :
    slice.start ≤ outline.label.offset := by
  cases h with
  | body hb =>
    obtain ⟨hr, _⟩ := hb
    exact (Slice.next?_spec (bodyRange?_spec hr).1).2.1.isPart.start_le
  | @chained next first after conditional _ hn hc _ =>
    have hoffset : conditional.label.offset = first.start := by
      obtain ⟨hh⟩ := conditional?_spec hc
      rw [hh.outline_eq]
      exact hh.offset
    obtain ⟨item, children⟩ := conditional
    exact Nat.le_trans (Slice.next?_spec hn).2.1.isPart.start_le (Nat.le_of_eq hoffset.symm)

theorem Branches.start_le (h : Branches P levels slice bodies after) :
    ∀ tree ∈ bodies, slice.start ≤ tree.label.offset := by
  intro tree hm
  obtain ⟨other, rest, hbegins, hbranch⟩ := h.exists_branch hm
  exact Nat.le_trans hbegins.isTail.isPart.start_le hbranch.start_le

theorem Branches.pairwise (h : Branches P levels slice bodies after) :
    bodies.Pairwise fun left right => left.label.offset ≤ right.label.offset := by
  cases h with
  | none => exact .nil
  | one => exact List.pairwise_singleton _ _
  | two hb he ha =>
    obtain ⟨hr, _⟩ := hb
    have hbody := (bodyRange?_spec hr).2.2.2.2
    have helse := (isTail_of_else he).isPart.start_le
    refine List.pairwise_pair.2 (Nat.le_trans ?_ ha.start_le)
    exact Nat.le_of_lt (Nat.lt_of_lt_of_le hbody helse)

end

/-- What a text has from an opening brace on reaches as far as the brace is open, or ends before
that. -/
theorem Braced.le {offset close : Nat} {cell : Cell} {rest : List Cell}
    (hp : IsPart ⟨offset, cell :: rest⟩ (Slice.laid 0 chars))
    (h : Delimiter.Braced (Cell.layout chars) offset close) : cell.byte = 0x7B ∧
      (Delimiter.closeFrom 0x7B 0x7D 0 (offset + 1) rest).getD (offset + 1 + rest.length) ≤ close := by
  obtain ⟨hbyte, hclosing⟩ := h
  obtain ⟨before, behind, hc, hs⟩ := hp
  have hcells : Cell.layout chars = before ++ cell :: (rest ++ behind) := hc
  have hoffset : offset = before.length := hs.trans (Nat.zero_add _)
  rw [hcells, hoffset, List.getElem?_append_right (Nat.le_refl _), Nat.sub_self] at hbyte
  have hb : cell.byte = 0x7B := Option.some.inj hbyte
  refine ⟨hb, ?_⟩
  rw [Delimiter.closing, hcells, hoffset, List.drop_left] at hclosing
  simp only [hb, show Delimiter.closerOf 0x7B = some 0x7D from rfl, ← hoffset] at hclosing
  cases hf : Delimiter.closeFrom 0x7B 0x7D 0 (offset + 1) (rest ++ behind) with
  | none =>
    rw [hf] at hclosing
    cases hclosing
  | some found =>
    rw [hf] at hclosing
    cases hclosing
    exact Delimiter.closeFrom_append hf

theorem bodyRange?_braced (hp : IsPart slice (Slice.laid 0 chars))
    (h : bodyRange? levels slice = some (body, inner, after)) {close : Nat}
    (hc : Delimiter.Braced (Cell.layout chars) body.start close) :
    body.start < inner.start ∧ inner.stop ≤ close := by
  obtain ⟨body', hn, h⟩ := Option.bind_eq_some_iff.1 h
  obtain ⟨⟨inner', after'⟩, hrange, he⟩ := Option.map_eq_some_iff.1 h
  cases he
  obtain ⟨cell, rest, hcells, _⟩ := Slice.isSolid_next? hn
  have hbody := (Slice.next?_spec hn).2.1.isPart.trans hp
  obtain ⟨offset, cells⟩ := body
  cases hcells
  obtain ⟨hbyte, hle⟩ := Braced.le hbody hc
  have hbrace : (Slice.mk offset (cell :: rest)).startsWith '{' := decide_eq_true hbyte
  have hclose : (Slice.mk offset (cell :: rest)).close? =
      Delimiter.closeFrom 0x7B 0x7D 0 (offset + 1) rest := by
    rw [Slice.close?]
    simp only [hbyte]
    rfl
  rw [if_pos hbrace, Slice.block?, hclose] at hrange
  cases hf : Delimiter.closeFrom 0x7B 0x7D 0 (offset + 1) rest with
  | none =>
    rw [hf] at hle hrange
    cases hrange
    exact ⟨Nat.lt_succ_self _, hle⟩
  | some found =>
    have hblock := Slice.block?_spec (show (Slice.mk offset (cell :: rest)).block? = some _ by
      rw [Slice.block?, hclose, hf]
      rfl)
    rw [hf] at hle hrange
    cases hrange
    exact ⟨hblock.2.2.1, Nat.le_trans (Nat.le_of_lt_succ hblock.2.2.2) hle⟩

theorem ordered_block {offset : Nat} (h : IsWhole chars inner) (hle : offset ≤ inner.start)
    (hclose : ∀ close, Delimiter.Braced (Cell.layout chars) offset close →
      offset < inner.start ∧ inner.stop ≤ close)
    (hs : ∀ child ∈ statementsBelow levels inner, Ordered chars child) :
    Ordered chars (.node ⟨.blockStatement, relation, offset, none, .absent⟩
      (statementsBelow levels inner)) := by
  have hstrict : (statementsBelow levels inner).Pairwise fun left right =>
      left.label.offset < right.label.offset := by
    cases levels with
    | zero => exact .nil
    | succ next =>
      rw [statementsBelow, below, Option.elim_some, level_block]
      exact pairwise_statements
  have hinside : ∀ child ∈ statementsBelow levels inner, ∀ item ∈ child.walk,
      inner.start ≤ item.offset ∧ item.offset < inner.stop := by
    intro child hm item hi
    obtain ⟨next, _, head, hhead, hchild⟩ := mem_statementsBelow.1 hm
    have hp := (Slice.isTail_of_mem_heads hhead).isPart
    exact ((pointed_statement? (h.heads hhead) hchild).of_isPart hp item hi).shows.bounds
  rw [ordered_node]
  refine ⟨⟨?_, hstrict.imp Nat.le_of_lt, fun _ => hstrict, ?_⟩, hs⟩
  · intro child hm
    exact Nat.le_trans hle (hinside child hm child.label child.label_mem_walk).1
  · intro _ close hc child hm item hi
    obtain ⟨hlt, hstop⟩ := hclose close hc
    obtain ⟨hfirst, hlast⟩ := hinside child hm item hi
    exact ⟨Nat.lt_of_lt_of_le hlt hfirst, Nat.lt_of_lt_of_le hlast hstop⟩

/-- What is said of the statements at every level. -/
def OrderedAt (chars : List Char) (_ : Nat) (slice : Slice) (outline : Outline) : Prop :=
  IsWhole chars slice → Ordered chars outline

theorem ordered_branch (h : IsWhole chars slice)
    (hb : Branch (OrderedAt chars) levels slice outline after) : Ordered chars outline := by
  cases hb with
  | body hbody =>
    obtain ⟨hr, hs⟩ := hbody
    obtain ⟨_, hinner, _⟩ := isWhole_bodyRange? h hr
    refine ordered_block hinner (bodyRange?_spec hr).2.1.start_le ?_ ?_
    · exact fun close hc => bodyRange?_braced h.isPart hr hc
    · intro child hm
      obtain ⟨next, hl, head, hhead, hchild⟩ := mem_statementsBelow.1 hm
      exact hs next hl head hhead child hchild (hinner.heads hhead)
  | chained hl hn hc hp =>
    exact ordered_relabel (fun _ => rfl) (hp (h.next? hn))

theorem ordered_headed (h : IsWhole chars slice)
    (hh : Headed levels (below levels) slice outline after)
    (hb : Branches (OrderedAt chars) levels hh.heading.after hh.bodies after) :
    Ordered chars outline := by
  obtain ⟨_, hafter⟩ := h.heading? hh.read
  obtain ⟨_, _, ht, _, hopen, hclose⟩ := Slice.heading?_spec hh.read
  have hleaves := bounds_clauses chars hh.header
  have hkinds : ∀ kind ∈ [NodeKind.ifStatement, .forStatement, .whileStatement],
      kind ∉ [.program, .blockStatement] := by decide
  rw [hh.outline_eq]
  apply ordered_of_siblings (hkinds _ hh.kind)
  · intro child hm
    rw [hh.offset]
    rcases List.mem_append.1 hm with hm | hm
    · exact Nat.le_of_lt (Nat.lt_of_lt_of_le hopen (hleaves child hm).2.1)
    · exact Nat.le_trans ht.isPart.start_le (hb.start_le child hm)
  · refine List.pairwise_append.2 ⟨pairwise_clauses hh.header, hb.pairwise, ?_⟩
    intro left hl right hr
    have hleft := (hleaves left hl).2.2
    have hright := hb.start_le right hr
    omega
  · intro child hm
    rcases List.mem_append.1 hm with hm | hm
    · exact (hleaves child hm).1
    · obtain ⟨other, rest, hother, hbranch⟩ := hb.exists_branch hm
      exact ordered_branch (isWhole_begins hafter hother) hbranch

theorem ordered_statement? (h : IsWhole chars slice)
    (hs : statement? levels (below levels) slice = some outline) : Ordered chars outline := by
  refine statement?_induct (P := OrderedAt chars) ?_ ?_ ?_ ?_ hs h
  · exact fun hd _ => ordered_ofDeclaration hd
  · exact fun hr _ => ordered_return? hr
  · exact fun hc _ => ordered_callStatement? hc
  · exact fun hh hb h => ordered_headed h hh hb

theorem bounds_ofEntry (index : Nat) (entry : Slice) :
    entry.start ≤ (Parameter.ofEntry index entry).offset ∧
      (Parameter.ofEntry index entry).offset ≤ entry.stop := by
  rw [Parameter.ofEntry]
  cases hn : Parameter.name? entry.start entry.cells with
  | none => exact ⟨Nat.le_refl _, entry.start_le_stop⟩
  | some name =>
    obtain ⟨cell, rest, ht, _⟩ := Checked.name?_begins hn
    have hp : IsPart ⟨name.start, cell :: rest⟩ entry := ht.isPart
    exact ⟨hp.start_le, Nat.le_trans (Slice.start_le_stop ⟨name.start, cell :: rest⟩) hp.stop_le⟩

theorem pairwise_readList (list : Slice) : (Parameter.readList list).Pairwise fun left right =>
    left.offset < right.offset := by
  have hentries : ((list.split 0x2C).map Slice.trim).Pairwise fun left right =>
      left.stop < right.start := List.pairwise_map.2 (list.pairwise_split 0x2C)
  rw [← List.zipIdx_map_fst 0 ((list.split 0x2C).map Slice.trim)] at hentries
  rw [Parameter.readList, List.pairwise_filterMap]
  refine (List.pairwise_map.1 hentries).imp ?_
  rintro ⟨left, first⟩ ⟨right, second⟩ hlt parameter hp other ho
  obtain ⟨_, hp⟩ := Option.ite_none_left_eq_some.1 hp
  obtain ⟨_, ho⟩ := Option.ite_none_left_eq_some.1 ho
  cases hp
  cases ho
  have hleft := (bounds_ofEntry first left).2
  have hright := (bounds_ofEntry second right).1
  simp only at hlt
  omega

theorem bounds_body {function : FunctionDefinition} {close : Nat}
    (h : IsPart slice (Slice.laid 0 chars)) (hf : FunctionDefinition.read? slice = some function)
    (hc : Delimiter.Braced (Cell.layout chars) function.opening close) :
    function.opening < function.body.start ∧ function.body.stop ≤ close := by
  obtain ⟨_, _, hbody, hinside, hlast, _⟩ := FunctionDefinition.read?_spec hf
  obtain ⟨_, cell, rest, _, _, _, htail, _, hclosing, _⟩ := FunctionDefinition.read?_opening hf
  have hlimit := (Braced.le (htail.isPart.trans h) hc).2
  have hend : slice.stop = function.opening + 1 + rest.length := by
    rw [← htail.stop_eq, Slice.stop, List.length_cons, Nat.add_comm rest.length, ← Nat.add_assoc]
  rw [← hclosing, ← hend] at hlimit
  refine ⟨hinside, ?_⟩
  cases hfound : function.closing with
  | none =>
    rw [hfound, Option.getD_none] at hlimit
    exact Nat.le_trans hbody.stop_le hlimit
  | some found =>
    rw [hfound, Option.getD_some] at hlimit
    rw [FunctionDefinition.extent, hfound, Option.getD_some] at hlast
    exact Nat.le_trans hlast hlimit

theorem ordered_body {function : FunctionDefinition} (h : IsWhole chars slice)
    (hf : FunctionDefinition.read? slice = some function) :
    Ordered chars (.node ⟨.blockStatement, .body, function.opening, none, .absent⟩
      (statementsBelow (maxNesting + 1) function.body)) := by
  have hwhole := FunctionDefinition.isWhole_body h hf
  obtain ⟨_, _, _, hinside, _⟩ := FunctionDefinition.read?_spec hf
  refine ordered_block hwhole (Nat.le_of_lt hinside) (fun _ hc => bounds_body h.isPart hf hc) ?_
  intro child hm
  obtain ⟨next, _, head, hhead, hchild⟩ := mem_statementsBelow.1 hm
  exact ordered_statement? (hwhole.heads hhead) hchild

theorem bounds_parameter {function : FunctionDefinition} (h : IsWhole chars slice)
    (hf : FunctionDefinition.read? slice = some function) {parameter : Parameter}
    (hm : parameter ∈ function.parameters) :
    slice.start ≤ parameter.offset ∧ parameter.offset ≤ function.opening := by
  obtain ⟨declarator, entries, after, hd, hopen, hb, _, _, hparameters, hopening⟩ :=
    FunctionDefinition.read?_parts hf
  have hlist := (Slice.isTail_skipSpace declarator.rest).trans (Declarator.read?_spec hd).2.2.1
  have hwhole := h.of_startsWith hlist (by decide) hopen
  have hbounds := (shows_parameter (hwhole.block? hb).1 (hparameters ▸ hm)).bounds
  have hfirst := ((Slice.block?_spec hb).1.trans hlist.isPart).start_le
  have hafter := (Slice.isTail_skipBlank after).isPart.start_le
  have hclose := (Slice.block?_spec hb).2.2.2
  omega

theorem pairwise_parameters {function : FunctionDefinition}
    (hf : FunctionDefinition.read? slice = some function) :
    function.parameters.Pairwise fun left right => left.offset < right.offset := by
  obtain ⟨_, entries, _, _, _, _, _, _, hparameters, _⟩ := FunctionDefinition.read?_parts hf
  rw [hparameters]
  exact pairwise_readList entries

theorem ordered_ofFunction {function : FunctionDefinition} (h : IsWhole chars slice)
    (hf : FunctionDefinition.read? slice = some function) :
    Ordered chars (ofFunction function) := by
  obtain ⟨hstart, hle, _⟩ := FunctionDefinition.read?_spec hf
  rw [ofFunction]
  apply ordered_of_siblings (by decide)
  · intro child hm
    rw [hstart]
    rcases List.mem_append.1 hm with hm | hm
    · obtain ⟨parameter, hp, rfl⟩ := List.mem_map.1 hm
      exact (bounds_parameter h hf hp).1
    · rw [List.mem_singleton.1 hm]
      exact hle
  · refine List.pairwise_append.2 ⟨?_, List.pairwise_singleton _ _, ?_⟩
    · rw [List.pairwise_map]
      exact (pairwise_parameters hf).imp Nat.le_of_lt
    · intro left hl right hr
      obtain ⟨parameter, hp, rfl⟩ := List.mem_map.1 hl
      rw [List.mem_singleton.1 hr]
      exact (bounds_parameter h hf hp).2
  · intro child hm
    rcases List.mem_append.1 hm with hm | hm
    · obtain ⟨parameter, _, rfl⟩ := List.mem_map.1 hm
      exact ordered_of_siblings (by decide) (fun _ hc => absurd hc List.not_mem_nil) .nil
        (fun _ hc => absurd hc List.not_mem_nil)
    · rw [List.mem_singleton.1 hm]
      exact ordered_body h hf

theorem ordered_ofText (chars : List Char) : Ordered chars (ofText (Slice.laid 0 chars)) := by
  have hwhole := Slice.isWhole_laid chars
  have hchildren : ∀ child ∈ (ofText (Slice.laid 0 chars)).children, Ordered chars child := by
    intro child hm
    rcases mem_children_ofText.1 hm with ⟨function, hf, rfl⟩ | ⟨declaration, hd, rfl⟩
    · obtain ⟨head, hhead, hf⟩ := FunctionDefinition.mem_findAll.1 hf
      exact ordered_ofFunction (hwhole.heads hhead) hf
    · obtain ⟨⟨head, _, hd⟩, _⟩ := Declaration.mem_findGlobals.1 hd
      exact ordered_ofDeclaration hd
  have hstrict : (ofText (Slice.laid 0 chars)).children.Pairwise fun left right =>
      left.label.offset < right.label.offset := by
    rw [children_ofText (Cell.isFaithful_of_mem_layout chars)]
    exact pairwise_items _
  rw [ofText, ordered_node]
  refine ⟨⟨fun _ _ => Nat.zero_le _, hstrict.imp Nat.le_of_lt, fun _ => hstrict, ?_⟩, hchildren⟩
  intro hk
  cases hk

end Outline

/-- A tree all nodes of which are in the order of a text. -/
def Node.Ordered (tree : Node) (text : Slice) : Prop :=
  ∀ node ∈ tree.subtrees, node.Arranged NodeLabel.kind NodeLabel.offset text.cells

/-- A text no part of which is read in two ways, as two statements or as two items. Sorting what each
recogniser finds in a block therefore gives its statements. -/
structure Unambiguous (text : Slice) : Prop where
  statement : ∀ slice, IsPart slice text → ∀ levels below, ∀ first second : Outline.Recogniser,
    (first.read? levels below slice).isSome → (second.read? levels below slice).isSome →
      first = second
  item : ∀ slice, IsPart slice text →
    FunctionDefinition.read? slice = none ∨ Declaration.read? slice = none
  sorted : ∀ block, IsPart block text → ∀ levels below,
    ((Outline.Recogniser.all.flatMap fun recogniser => (block.statementStarts .topLevel).filterMap
      fun start => recogniser.read? levels below (block.fromOffset start)).mergeSort
        fun left right => left.label.offset ≤ right.label.offset) =
      Outline.statements levels below block

theorem unambiguous_laid (chars : List Char) : Unambiguous (Slice.laid 0 chars) := by
  have hf {slice : Slice} (hp : IsPart slice (Slice.laid 0 chars)) :
      ∀ cell ∈ slice.cells, cell.IsFaithful :=
    fun cell hm => Cell.isFaithful_of_mem_layout chars cell (hp.subset hm)
  refine ⟨?_, ?_, ?_⟩
  · intro slice hp levels below first second h h'
    exact Outline.Recogniser.eq_of_isSome (hf hp) h h'
  · intro slice hp
    cases hr : FunctionDefinition.read? slice with
    | none => exact .inl rfl
    | some function => exact .inr (Declaration.read?_of_function (hf hp) (by rw [hr]; rfl))
  · intro block hp levels below
    exact Outline.mergeSort_recognised (hf hp)

/-- The tree of a text is in the order of the text, which no two recognisers read alike. -/
theorem ordered_structuralTree (text : String) :
    Node.Ordered (structuralTree text) (Source.ofString text).view ∧
      Unambiguous (Source.ofString text).view := by
  refine ⟨?_, unambiguous_laid (Checked.maskedChars text)⟩
  intro node hm
  rw [structuralTree, Source.tree, Tree.subtrees_map] at hm
  obtain ⟨outline, ho, rfl⟩ := List.mem_map.1 hm
  exact (Outline.ordered_ofText (Checked.maskedChars text) outline ho).map
    (fun _ => rfl) (fun _ => rfl)

end CodeOutline
