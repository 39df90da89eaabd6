import CodeOutline.Proofs.Outline.Induction
import CodeOutline.Proofs.Outline.Variable
import CodeOutline.Proofs.Safety
import CodeOutline.Proofs.Text.Shown

namespace CodeOutline

open Checked (isWhole_bodyRange? isWhole_clause isWhole_initializer)
open Slice (IsPart IsTail IsWhole)

/-- The nodes that quote the text they stand for. -/
def NodeKind.quoting : List NodeKind :=
  [.initializer, .binaryExpression, .initialization, .test, .update, .argument]

/-- The nodes that have the words of a type. -/
def NodeKind.typed : List NodeKind :=
  [.functionDeclaration, .variableDeclaration]

namespace Outline

variable {chars : List Char} {slice part whole inner after name : Slice} {kind : NodeKind}
  {relation : Relation} {item : Item} {children : List Outline} {outline : Outline}

/-- An item that points at what it stands for: a character that is not blank, and the stretch that
it quotes or the words of the type that it has. -/
structure Points (chars : List Char) (slice : Slice) (item : Item) : Prop where
  shows : slice.Shows item.offset
  quoted : item.kind ∈ NodeKind.quoting → ∃ part, item.wording = .quoted part ∧
    item.offset = part.trim.start ∧ IsWhole chars part
  words : item.kind ∈ NodeKind.typed → ∃ words, item.wording = .words words ∧
    ReadsAt (String.ofList chars) item.offset words

theorem Points.of_isPart (h : Points chars part item) (hp : IsPart part whole) :
    Points chars whole item :=
  ⟨h.shows.of_isPart hp, h.quoted, h.words⟩

theorem points_of_not_mem {offset : Nat} {name : Option String} {wording : Wording}
    (hs : slice.Shows offset) (hk : kind ∉ NodeKind.quoting ∧ kind ∉ NodeKind.typed) :
    Points chars slice ⟨kind, relation, offset, name, wording⟩ :=
  ⟨hs, fun hq => absurd hq hk.1, fun ht => absurd ht hk.2⟩

theorem points_of_words {offset : Nat} {name : Option String} {words : String}
    (hs : slice.Shows offset) (hk : kind ∉ NodeKind.quoting)
    (hw : ReadsAt (String.ofList chars) offset words) :
    Points chars slice ⟨kind, relation, offset, name, .words words⟩ :=
  ⟨hs, fun hq => absurd hq hk, fun _ => ⟨words, rfl, hw⟩⟩

/-- Whether every item of an outline points at what it stands for. -/
def Pointed (chars : List Char) (slice : Slice) (outline : Outline) : Prop :=
  ∀ item ∈ outline.walk, Points chars slice item

theorem pointed_node : Pointed chars slice (.node item children) ↔
    Points chars slice item ∧ ∀ child ∈ children, Pointed chars slice child :=
  Tree.forall_mem_walk_node

theorem Pointed.of_isPart (h : Pointed chars part outline) (hp : IsPart part whole) :
    Pointed chars whole outline :=
  fun item hm => (h item hm).of_isPart hp

theorem pointed_leaf (hk : kind ∉ NodeKind.typed) (h : IsWhole chars part)
    (hs : whole.Shows part.trim.start) : Pointed chars whole (leaf kind relation part) := by
  rw [leaf, pointed_node]
  refine ⟨⟨hs, ?_, ?_⟩, fun child hc => absurd hc List.not_mem_nil⟩
  · intro _
    exact ⟨part, rfl, rfl, h⟩
  · intro ht
    exact absurd ht hk

theorem pointed_relabel {f : Item → Item}
    (hf : ∀ item, f item = { item with relation := (f item).relation })
    (h : Pointed chars slice outline) : Pointed chars slice (outline.relabel f) := by
  obtain ⟨item, children⟩ := outline
  rw [pointed_node] at h
  rw [Tree.relabel, pointed_node, hf]
  exact ⟨⟨h.1.shows, h.1.quoted, h.1.words⟩, h.2⟩

theorem shows_declarator {declarator : Declarator} (h : IsWhole chars slice)
    (hd : Declarator.read? slice = some declarator) :
    slice.Shows slice.start ∧
      ReadsAt (String.ofList chars) slice.start (Text.trim declarator.typeWords.text) := by
  obtain ⟨cell, rest, count, start, stop, hc, hb, _, _, rfl⟩ := Declarator.read?_eq_some hd
  refine ⟨h.isPart.shows_word hc hb, h.readsAt ?_⟩
  obtain ⟨c, hchar, hstart⟩ := (Option.any_eq_true _ _).1 hb
  have hhead : ∀ d ∈ (Cell.chars (slice.toOffset start).cells).head?,
      CharClass.isSpace d = false := by
    intro d hm
    rw [Slice.toOffset, Slice.take, hc] at hm
    cases hn : start - slice.start with
    | zero =>
      rw [hn] at hm
      cases hm
    | succ count =>
      rw [hn, List.take_succ_cons, Cell.chars, List.filterMap_cons, hchar] at hm
      cases hm
      exact CharClass.isSpace_of_isWordStart hstart
  have htype : Cell.chars (slice.toOffset start).cells <+: Cell.chars slice.cells :=
    (List.take_prefix _ _).filterMap _
  exact (Text.trim_prefix hhead).trans htype

theorem pointed_ofDeclaration {declaration : Declaration} (h : IsWhole chars slice)
    (hd : Declaration.read? slice = some declaration) :
    Pointed chars slice (ofDeclaration relation declaration) := by
  obtain ⟨declarator, initializer, last, hr, he⟩ := Declaration.read?_declarator hd
  obtain ⟨hs, hwords⟩ := shows_declarator h hr
  have hstart := (Declaration.read?_spec hd).1
  rw [ofDeclaration, pointed_node]
  refine ⟨?_, fun child hc => ?_⟩
  · rw [hstart, he]
    exact points_of_words hs (by decide) hwords
  · obtain ⟨value, hv, rfl⟩ := List.mem_map.1 hc
    rw [Option.mem_toList] at hv
    obtain ⟨rest, stop, ht, hf, rfl⟩ := Declaration.read?_initializer hd value hv
    have hstop := (ht.isPart.trans h.isPart).shows_find? hf (by decide) rfl
    have hp := (Slice.isPart_toOffset rest stop).trans ht.isPart
    exact pointed_leaf (by decide) (isWhole_initializer h hd _ hv)
      ((isWhole_initializer h hd _ hv).shows_trim_or hp (hstop.of_isPart ht.isPart))

theorem pointed_ofCall (h : IsWhole chars inner) (hp : IsPart inner whole)
    (hn : whole.Shows name.start) : Pointed chars whole (ofCall relation name inner) := by
  rw [ofCall, pointed_node]
  refine ⟨points_of_not_mem hn (by decide), fun child hc => ?_⟩
  obtain ⟨piece, hm, rfl⟩ := List.mem_map.1 hc
  obtain ⟨hpiece, hblank⟩ := List.mem_filter.1 hm
  have hw := h.split (by decide) hpiece
  have hne : piece.trim.cells ≠ [] := by
    intro he
    rw [Slice.isEmpty, he] at hblank
    cases hblank
  have hshown := (hw.shows_trim hne).of_isPart (Slice.isPart_split hpiece)
  exact pointed_leaf (by decide) hw (hshown.of_isPart hp)

theorem pointed_findCall? (h : IsWhole chars slice)
    (hf : findCall? 0 slice.start slice.cells = some outline) : Pointed chars slice outline := by
  obtain ⟨tail, name, list, inner, after, ht, ho, hb, rfl⟩ := findCall?_begins hf
  have htail : IsTail tail slice := ht
  obtain ⟨hlist, hname, _, hopen⟩ := Slice.opening?_spec ho
  have hwhole := h.of_startsWith (hlist.trans htail) (by decide) hopen
  refine pointed_ofCall (hwhole.block? hb).1
    ((Slice.block?_spec hb).1.trans (hlist.trans htail).isPart) ?_
  rw [hname]
  exact ((htail.isPart.trans h.isPart).shows_opening? ho).of_isPart htail.isPart

theorem pointed_return? (h : IsWhole chars slice) (hr : return? slice = some outline) :
    Pointed chars slice outline := by
  obtain ⟨rest, stop, value, ha, hf, rfl, rfl⟩ := return?_spec hr
  obtain ⟨_, hw, _⟩ := Slice.exists_word?_of_after? ha
  have hvalue := ((h.after? ha).find? (by decide) hf).1.trim
  have hp : IsPart (rest.toOffset stop).trim slice :=
    (Slice.isPart_trim _).trans ((Slice.isPart_toOffset ..).trans (Slice.after?_spec ha).1.isPart)
  rw [pointed_node]
  refine ⟨points_of_not_mem (h.isPart.shows_word? hw) (by decide), fun child hc => ?_⟩
  exact (pointed_findCall? hvalue (Option.mem_toList.1 hc)).of_isPart hp

theorem pointed_callStatement? (h : IsWhole chars slice) (hc : callStatement? slice = some outline) :
    Pointed chars slice outline := by
  obtain ⟨heading, hh, rfl⟩ := callStatement?_spec hc
  obtain ⟨_, hp, _, hname, _⟩ := Slice.heading?_spec hh
  exact pointed_ofCall (h.heading? hh).1 hp (hname ▸ (h.isPart.shows_heading? hh).1)

theorem pointed_clauses {leaves : List Outline} (h : IsWhole chars inner) (hp : IsPart inner whole)
    (hs : whole.Shows inner.stop) (hl : Clauses inner kind leaves) :
    ∀ tree ∈ leaves, Pointed chars whole tree := by
  have hclause (index : Nat) : whole.Shows (clause inner index).stop := by
    rw [clause]
    cases hg : (inner.split 0x3B)[index]? with
    | none => exact hs
    | some piece => exact h.isPart.shows_split hp hs (by decide) rfl (List.mem_of_getElem? hg)
  have hleaf {kind : NodeKind} {relation : Relation} (hk : kind ∉ NodeKind.typed) (index : Nat) :
      Pointed chars whole (leaf kind relation (clause inner index)) :=
    pointed_leaf hk (isWhole_clause h index) ((isWhole_clause h index).shows_trim_or
      ((isPart_clause inner index).trans hp) (hclause index))
  cases hl with
  | conditional | whileLoop =>
    intro tree hm
    rw [List.mem_singleton.1 hm]
    exact pointed_leaf (by decide) h (h.shows_trim_or hp hs)
  | forLoop =>
    simp only [List.mem_cons, List.not_mem_nil, or_false]
    rintro tree (rfl | rfl | rfl) <;> exact hleaf (by decide) _

theorem isWhole_begins {levels : Nat} {other : Slice} (h : IsWhole chars slice)
    (hb : Begins levels slice other) : IsWhole chars other := by
  cases hb with
  | first => exact h
  | second hr he =>
    obtain ⟨next, hn, ha⟩ := Option.bind_eq_some_iff.1 he
    exact ((isWhole_bodyRange? h hr).2.2.next? hn).after? ha

/-- What is said of the statements at every level. -/
def PointedAt (chars : List Char) (_ : Nat) (slice : Slice) (outline : Outline) : Prop :=
  IsWhole chars slice → Pointed chars slice outline

theorem pointed_branch {levels : Nat} (h : IsWhole chars slice)
    (hb : Branch (PointedAt chars) levels slice outline after) : Pointed chars slice outline := by
  cases hb with
  | body hbody =>
    obtain ⟨hr, hs⟩ := hbody
    obtain ⟨hbody, hinner, _⟩ := isWhole_bodyRange? h hr
    obtain ⟨hn, _⟩ := bodyRange?_spec hr
    obtain ⟨cell, rest, hc, hsolid⟩ := Slice.isSolid_next? hn
    rw [pointed_node]
    refine ⟨points_of_not_mem ?_ (by decide), fun child hm => ?_⟩
    · exact (hbody.shows_start hc hsolid).of_isPart (Slice.next?_spec hn).2.1.isPart
    · obtain ⟨next, hl, head, hhead, hchild⟩ := mem_statementsBelow.1 hm
      exact (hs next hl head hhead child hchild (hinner.heads hhead)).of_isPart
        ((Slice.isTail_of_mem_heads hhead).isPart.trans (isPart_of_bodyRange? hr).1)
  | chained hl hn hc hp =>
    exact pointed_relabel (fun _ => rfl) ((hp (h.next? hn)).of_isPart
      (Slice.next?_spec hn).2.1.isPart)

theorem pointed_statement? {levels : Nat} (h : IsWhole chars slice)
    (hs : statement? levels (below levels) slice = some outline) : Pointed chars slice outline := by
  refine statement?_induct (P := PointedAt chars) ?_ ?_ ?_ ?_ hs h
  · exact fun hd h => pointed_ofDeclaration h hd
  · exact fun hr h => pointed_return? h hr
  · exact fun hc h => pointed_callStatement? h hc
  · intro levels slice after outline hh hb h
    obtain ⟨hinner, hafter⟩ := h.heading? hh.read
    obtain ⟨_, hp, ht, _⟩ := Slice.heading?_spec hh.read
    obtain ⟨hstart, hstop⟩ := h.isPart.shows_heading? hh.read
    rw [hh.outline_eq, pointed_node]
    have hkinds : ∀ kind ∈ [NodeKind.ifStatement, .forStatement, .whileStatement],
        kind ∉ NodeKind.quoting ∧ kind ∉ NodeKind.typed := by decide
    refine ⟨points_of_not_mem (hh.offset ▸ hstart) (hkinds _ hh.kind), fun child hc => ?_⟩
    rcases List.mem_append.1 hc with hc | hc
    · exact pointed_clauses hinner hp hstop hh.header child hc
    · obtain ⟨other, rest, hother, hbranch⟩ := hb.exists_branch hc
      exact (pointed_branch (isWhole_begins hafter hother) hbranch).of_isPart
        (hother.isTail.trans ht).isPart

theorem shows_parameter {parameter : Parameter} (h : IsWhole chars inner)
    (hm : parameter ∈ Parameter.readList inner) : inner.Shows parameter.offset := by
  rw [Parameter.readList, List.mem_filterMap] at hm
  obtain ⟨⟨entry, index⟩, hentry, hm⟩ := hm
  obtain ⟨piece, hpiece, rfl⟩ := List.mem_map.1 (List.fst_mem_of_mem_zipIdx hentry)
  have hwhole := h.split (by decide) hpiece
  have hp := (Slice.isPart_trim piece).trans (Slice.isPart_split hpiece)
  obtain ⟨hvacant, he⟩ := Option.ite_none_left_eq_some.1 hm
  cases he
  rw [Parameter.ofEntry]
  cases hn : Parameter.name? piece.trim.start piece.trim.cells with
  | none =>
    have hne : piece.trim.cells ≠ [] := by
      intro hcells
      apply hvacant
      rw [Parameter.isVacant, Slice.isEmpty, hcells]
      rfl
    exact (hwhole.shows_trim hne).of_isPart (Slice.isPart_split hpiece)
  | some name =>
    obtain ⟨cell, rest, ht, hb⟩ := Checked.name?_begins hn
    have htail : IsTail ⟨name.start, cell :: rest⟩ piece.trim := ht
    have hname := (htail.isPart.trans (hp.trans h.isPart)).shows_word rfl hb
    exact hname.of_isPart (htail.isPart.trans hp)

theorem pointed_ofParameter {parameter : Parameter} (hs : slice.Shows parameter.offset) :
    Pointed chars slice (ofParameter parameter) := by
  rw [ofParameter, pointed_node]
  exact ⟨points_of_not_mem hs (by decide), fun child hc => absurd hc List.not_mem_nil⟩

theorem pointed_ofFunction {function : FunctionDefinition} (h : IsWhole chars slice)
    (hf : FunctionDefinition.read? slice = some function) :
    Pointed chars slice (ofFunction function) := by
  obtain ⟨declarator, entries, after, hd, hopen, hb, hbrace, htype, hparameters, hopening⟩ :=
    FunctionDefinition.read?_parts hf
  obtain ⟨hstart, _, hbody, _⟩ := FunctionDefinition.read?_spec hf
  obtain ⟨hs, hwords⟩ := shows_declarator h hd
  have hlist := (Slice.isTail_skipSpace declarator.rest).trans (Declarator.read?_spec hd).2.2.1
  have hwhole := h.of_startsWith hlist (by decide) hopen
  have hentries := (Slice.block?_spec hb).1.trans hlist.isPart
  have hbraced := (Slice.isTail_skipBlank after).trans ((Slice.block?_spec hb).2.1.trans hlist)
  rw [ofFunction, pointed_node]
  refine ⟨?_, fun child hc => ?_⟩
  · rw [hstart, htype]
    exact points_of_words hs (by decide) hwords
  · rcases List.mem_append.1 hc with hc | hc
    · obtain ⟨parameter, hm, rfl⟩ := List.mem_map.1 hc
      rw [hparameters] at hm
      exact pointed_ofParameter ((shows_parameter (hwhole.block? hb).1 hm).of_isPart hentries)
    · rw [List.mem_singleton.1 hc, pointed_node]
      refine ⟨points_of_not_mem ?_ (by decide), fun child hm => ?_⟩
      · rw [hopening]
        exact ((hbraced.isPart.trans h.isPart).shows_startsWith (by decide) rfl hbrace).of_isPart
          hbraced.isPart
      · obtain ⟨head, hhead, hchild⟩ := mem_level_block.1 hm
        have hbodyWhole := FunctionDefinition.isWhole_body h hf
        exact (pointed_statement? (hbodyWhole.heads hhead) hchild).of_isPart
          ((Slice.isTail_of_mem_heads hhead).isPart.trans hbody)

theorem pointed_ofText (h : outline ∈ (ofText (Slice.laid 0 chars)).children) :
    Pointed chars (Slice.laid 0 chars) outline := by
  have hwhole := Slice.isWhole_laid chars
  rcases mem_children_ofText.1 h with ⟨function, hf, rfl⟩ | ⟨declaration, hd, rfl⟩
  · obtain ⟨head, hm, hf⟩ := FunctionDefinition.mem_findAll.1 hf
    exact (pointed_ofFunction (hwhole.heads hm) hf).of_isPart (Slice.isTail_of_mem_heads hm).isPart
  · obtain ⟨⟨head, hm, hd⟩, _⟩ := Declaration.mem_findGlobals.1 hd
    exact (pointed_ofDeclaration (hwhole.heads hm) hd).of_isPart
      (Slice.isTail_of_mem_heads hm).isPart

end Outline

/-- What a node tells of a text: where it is, and the text that is there or that is there when
comments and literals are masked. -/
structure NodeLabel.Describes (label : NodeLabel) (text : String) : Prop where
  lt : label.offset < text.utf8ByteSize
  boundary : Cell.isBoundary (Cell.layout text.toList) label.offset
  location : label.location = locate text label.offset
  quoted : label.kind ∈ NodeKind.quoting → ∀ raw ∈ label.rawText, ReadsAt text label.offset raw
  words : label.kind ∈ NodeKind.typed →
    ∃ raw, label.rawText = some raw ∧ ReadsAt (maskText text) label.offset raw

theorem describes_of_points {text : String} {item : Item}
    (h : Outline.Points (Checked.maskedChars text) (Source.ofString text).view item) :
    ((Source.ofString text).describe item).Describes text := by
  obtain ⟨hlt, hboundary⟩ := h.shows.original
  refine ⟨hlt, hboundary, rfl, ?_, ?_⟩
  · intro hk raw hraw
    obtain ⟨part, hw, hoffset, hwhole⟩ := h.quoted hk
    change raw ∈ (Source.ofString text).wording item.wording at hraw
    rw [hw] at hraw
    obtain ⟨hne, he⟩ := Option.ite_none_left_eq_some.1 hraw
    cases he
    have hcells : part.trim.cells ≠ [] := fun hc => hne (by rw [Slice.isEmpty, hc]; rfl)
    have hprefix : ((Source.ofString text).quote part.trim).toList <+:
        Cell.chars (Checked.inText text part.trim).cells := by
      rw [Source.quote, Cell.text, String.toList_ofList]
      exact List.prefix_refl _
    have hreads := (Checked.isWhole_trim hwhole hcells).readsAt hprefix
    rw [String.ofList_toList] at hreads
    change ReadsAt text item.offset _
    rw [hoffset]
    exact hreads
  · intro hk
    obtain ⟨words, hw, hreads⟩ := h.words hk
    refine ⟨words, ?_, hreads⟩
    change (Source.ofString text).wording item.wording = some words
    rw [hw]
    rfl

/-- A tree of which every node below the root describes the text. -/
structure Node.Describes (tree : Node) (text : String) : Prop where
  forall_child : ∀ child ∈ tree.children, ∀ label ∈ child.walk, label.Describes text

/-- Every node below the root points at what it stands for in the text. -/
theorem describes_structuralTree (text : String) : Node.Describes (structuralTree text) text := by
  refine ⟨fun child hc label hl => ?_⟩
  have hchildren : (structuralTree text).children =
      (Outline.ofText (Source.ofString text).view).children.map
        (Tree.map (Source.ofString text).describe) := by
    rw [structuralTree, Source.tree, Outline.ofText, Tree.map_node]
    rfl
  rw [hchildren] at hc
  obtain ⟨outline, ho, rfl⟩ := List.mem_map.1 hc
  rw [Tree.walk_map] at hl
  obtain ⟨item, hi, rfl⟩ := List.mem_map.1 hl
  exact describes_of_points (Outline.pointed_ofText ho item hi)

end CodeOutline
