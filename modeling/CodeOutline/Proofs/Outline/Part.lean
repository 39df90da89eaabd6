import CodeOutline.Outline.Program
import CodeOutline.Proofs.Delimiter.Outside
import CodeOutline.Proofs.Delimiter.Piece
import CodeOutline.Proofs.Shape.Part
import CodeOutline.Proofs.Tree

namespace CodeOutline

open Slice (IsPart IsTail)

namespace Slice

variable {slice after next : Slice} {keyword : String} {levels : Nat}

theorem opening?_spec {cls : Char → Bool} {name list : Slice}
    (h : slice.opening? cls = some (name, list)) :
    IsTail list slice ∧ name.start = slice.start ∧ slice.start < list.start ∧
      list.startsWith '(' := by
  rw [opening?, Option.bind_eq_some_iff] at h
  obtain ⟨⟨name, after⟩, hw, h⟩ := h
  obtain ⟨hs, he⟩ := Option.ite_none_right_eq_some.1 h
  cases he
  obtain ⟨_, ha, hn, _, hlt⟩ := word?_spec hw
  exact ⟨(isTail_skipSpace after).trans ha, hn,
    Nat.lt_of_lt_of_le hlt (isTail_skipSpace after).isPart.start_le, hs⟩

theorem exists_word?_of_heading? {heading : Heading} (h : slice.heading? = some heading) :
    ∃ after, slice.word? CharClass.isWord = some (heading.name, after) ∧
      after.skipSpace.startsWith '(' := by
  rw [heading?, Option.bind_eq_some_iff] at h
  obtain ⟨⟨name, list⟩, ho, h⟩ := h
  obtain ⟨⟨inner, after⟩, _, rfl⟩ := Option.map_eq_some_iff.1 h
  rw [opening?, Option.bind_eq_some_iff] at ho
  obtain ⟨⟨name', rest⟩, hw, ho⟩ := ho
  obtain ⟨hopen, he⟩ := Option.ite_none_right_eq_some.1 ho
  cases he
  exact ⟨rest, hw, hopen⟩

theorem heading?_spec {heading : Heading} (h : slice.heading? = some heading) :
    IsPart heading.name slice ∧ IsPart heading.inner slice ∧ IsTail heading.after slice ∧
      heading.name.start = slice.start ∧ slice.start < heading.inner.start ∧
      heading.inner.stop < heading.after.start := by
  rw [heading?, Option.bind_eq_some_iff] at h
  obtain ⟨⟨name, list⟩, ho, h⟩ := h
  rw [opening?, Option.bind_eq_some_iff] at ho
  obtain ⟨⟨name', rest⟩, hw, ho⟩ := ho
  obtain ⟨hn, hr, hs, _, _⟩ := word?_spec hw
  simp only at ho
  split at ho
  · cases ho
    rw [Option.map_eq_some_iff] at h
    obtain ⟨⟨inner, after⟩, hb, he⟩ := h
    cases he
    have ht := (isTail_skipSpace rest).trans hr
    obtain ⟨hi, ha, hlt, hle⟩ := block?_spec hb
    exact ⟨hn, hi.trans ht.isPart, ha.trans ht, hs, Nat.lt_of_le_of_lt ht.isPart.start_le hlt, hle⟩
  · cases ho

theorem length_text_le (slice : Slice) : slice.text.length ≤ slice.cells.length := by
  rw [text, Cell.text, String.length_ofList]
  exact List.length_filterMap_le ..

theorem heading?_room {heading : Heading} (h : slice.heading? = some heading) :
    slice.start + heading.name.text.length + 2 ≤ heading.after.start := by
  rw [heading?, Option.bind_eq_some_iff] at h
  obtain ⟨⟨name, list⟩, ho, h⟩ := h
  rw [opening?, Option.bind_eq_some_iff] at ho
  obtain ⟨⟨name', rest⟩, hw, ho⟩ := ho
  obtain ⟨_, _, hs, hn, _⟩ := word?_spec hw
  simp only at ho
  split at ho
  · cases ho
    rw [Option.map_eq_some_iff] at h
    obtain ⟨⟨inner, after⟩, hb, he⟩ := h
    cases he
    have hlist := (isTail_skipSpace rest).isPart.start_le
    have hname := name.length_text_le
    have hinner := inner.start_le_stop
    obtain ⟨_, _, hlt, hle⟩ := block?_spec hb
    rw [stop] at hn
    simp only
    omega
  · cases ho

theorem next?_spec (h : slice.next? = some next) :
    next = slice.skipBlank ∧ IsTail next slice ∧ next.start < next.stop := by
  rw [next?] at h
  split at h
  · cases h
  · next he =>
    cases h
    refine ⟨rfl, isTail_skipBlank slice, ?_⟩
    have hn : slice.skipBlank.cells ≠ [] := by
      intro hc
      rw [isEmpty, hc] at he
      exact he rfl
    have := List.length_pos_iff.2 hn
    rw [stop]
    omega

theorem cells_skipBlank (slice : Slice) :
    slice.skipBlank.cells = slice.cells.dropWhile Cell.isBlank :=
  cells_drop_run ..

theorem isSolid_next? (h : slice.next? = some next) : IsSolid next := by
  obtain ⟨rfl, _, hlt⟩ := next?_spec h
  have hhead := List.head?_dropWhile_not Cell.isBlank slice.cells
  rw [← cells_skipBlank] at hhead
  cases hc : slice.skipBlank.cells with
  | nil =>
    rw [stop, hc] at hlt
    exact absurd hlt (Nat.lt_irrefl _)
  | cons cell rest =>
    rw [hc] at hhead
    exact ⟨cell, rest, hc, hhead⟩

theorem exists_word?_of_after? (h : slice.after? keyword = some after) :
    ∃ name, slice.word? CharClass.isWord = some (name, after) ∧ name.text = keyword := by
  rw [after?, Option.bind_eq_some_iff] at h
  obtain ⟨⟨name, rest⟩, hw, h⟩ := h
  obtain ⟨hname, he⟩ := Option.ite_none_right_eq_some.1 h
  cases he
  exact ⟨name, hw, hname⟩

theorem after?_spec (h : slice.after? keyword = some after) :
    IsTail after slice ∧ slice.start < after.start := by
  obtain ⟨_, hw, _⟩ := exists_word?_of_after? h
  obtain ⟨_, hr, _, _, hlt⟩ := word?_spec hw
  exact ⟨hr, hlt⟩

theorem pastSemicolon?_spec (h : slice.pastSemicolon? = some after) :
    IsTail after slice ∧ slice.start < after.start := by
  rw [pastSemicolon?, Option.map_eq_some_iff] at h
  obtain ⟨stop, hf, rfl⟩ := h
  obtain ⟨h1, h2⟩ := find?_bounds hf
  exact ⟨isTail_fromOffset (by omega) (by omega), Nat.lt_succ_of_le h1⟩

end Slice

namespace Outline

variable {slice inner after other whole : Slice} {levels : Nat} {below : Option Level}
  {outline : Outline} {relation : Relation}

/-- A text and what follows the statement that it begins with. This is a body in braces, or reaches
up to a semicolon, or is a heading with its bodies. -/
inductive Passes : Slice → Slice → Prop where
  | block {slice inner after : Slice} (hb : slice.startsWith '{')
      (h : slice.block? = some (inner, after)) : Passes slice after
  | unclosed {slice : Slice} (hb : slice.startsWith '{') (h : slice.block? = none) :
      Passes slice (slice.fromOffset slice.stop)
  | simple {slice after : Slice} (h : slice.pastSemicolon? = some after) : Passes slice after
  | headed {slice body after : Slice} {heading : Heading} (hh : slice.heading? = some heading)
      (hk : heading.name.text ∈ ["if", "for", "while"]) (hn : heading.after.next? = some body)
      (h : Passes body after) : Passes slice after
  | branched {slice body middle past other after : Slice} {heading : Heading}
      (hh : slice.heading? = some heading) (hk : heading.name.text ∈ ["if", "for", "while"])
      (hn : heading.after.next? = some body) (h : Passes body middle)
      (he : middle.next?.bind (Slice.after? "else") = some past) (ho : past.next? = some other)
      (ha : Passes other after) : Passes slice after

theorem passes_of_brace (hb : slice.startsWith '{') (h : afterStatement? levels slice = some after) :
    Passes slice after := by
  rw [afterStatement?.eq_def, if_pos hb] at h
  split at h
  · next hblock =>
    cases h
    exact .block hb hblock
  · next hblock =>
    cases h
    exact .unclosed hb hblock

theorem passes_of_afterStatement? (h : afterStatement? levels slice = some after) :
    Passes slice after := by
  induction levels generalizing slice after with
  | zero =>
    by_cases hb : slice.startsWith '{'
    · exact passes_of_brace hb h
    · rw [afterStatement?.eq_def, if_neg hb] at h
      exact .simple h
  | succ levels ih =>
    by_cases hb : slice.startsWith '{'
    · exact passes_of_brace hb h
    rw [afterStatement?.eq_def, if_neg hb] at h
    simp only at h
    split at h
    · exact .simple h
    · next heading hh =>
      split at h
      · next hk =>
        have hk : heading.name.text ∈ ["if", "for", "while"] := by simpa using hk
        simp only [Option.bind_eq_some_iff] at h
        obtain ⟨middle, ⟨body, hn, hbody⟩, h⟩ := h
        split at h
        · split at h
          · next other hother =>
            obtain ⟨past, he, ho⟩ := Option.bind_eq_some_iff.1 hother
            exact .branched hh hk hn (ih hbody) he ho (ih h)
          · cases h
            exact .headed hh hk hn (ih hbody)
        · cases h
          exact .headed hh hk hn (ih hbody)
      · exact .simple h

theorem isTail_of_heading {heading : Heading} {body : Slice} (hh : slice.heading? = some heading)
    (hn : heading.after.next? = some body) :
    IsTail body slice ∧ slice.start < body.start ∧ body.start < body.stop := by
  obtain ⟨_, _, ha, _, hlt, hle⟩ := Slice.heading?_spec hh
  obtain ⟨_, hbody, hne⟩ := Slice.next?_spec hn
  have := heading.inner.start_le_stop
  have := hbody.isPart.start_le
  exact ⟨hbody.trans ha, by omega, hne⟩

theorem isTail_of_else (he : after.next?.bind (Slice.after? "else") = some other) :
    IsTail other after := by
  rw [Option.bind_eq_some_iff] at he
  obtain ⟨next, hn, he⟩ := he
  exact (Slice.after?_spec he).1.trans (Slice.next?_spec hn).2.1

/-- What follows a statement is a later part of the text. -/
theorem Passes.spec (h : Passes slice after) (hs : slice.start < slice.stop) :
    IsTail after slice ∧ slice.start < after.start := by
  induction h with
  | @block slice inner after _ hblock =>
    obtain ⟨_, ha, hlt, hle⟩ := Slice.block?_spec hblock
    have := inner.start_le_stop
    exact ⟨ha, by omega⟩
  | unclosed => exact ⟨Slice.isTail_fromOffset (Slice.start_le_stop _) (Nat.le_refl _), hs⟩
  | simple h => exact Slice.pastSemicolon?_spec h
  | headed hh _ hn _ ih =>
    obtain ⟨hbody, hlt, hne⟩ := isTail_of_heading hh hn
    obtain ⟨ht, ha⟩ := ih hne
    exact ⟨ht.trans hbody, Nat.lt_trans hlt ha⟩
  | branched hh _ hn _ he ho _ ih ih' =>
    obtain ⟨hbody, hlt, hne⟩ := isTail_of_heading hh hn
    obtain ⟨ht, hm⟩ := ih hne
    obtain ⟨_, hother, hone⟩ := Slice.next?_spec ho
    obtain ⟨ht', ha⟩ := ih' hone
    have hbranch := hother.trans (isTail_of_else he)
    have := hbranch.isPart.start_le
    exact ⟨ht'.trans (hbranch.trans (ht.trans hbody)), by omega⟩

theorem afterStatement?_spec (h : afterStatement? levels slice = some after)
    (hs : slice.start < slice.stop) : IsTail after slice ∧ slice.start < after.start :=
  (passes_of_afterStatement? h).spec hs

/-- The body that a text begins with: its own text, what is read of it and what follows it. -/
def bodyRange? (levels : Nat) (slice : Slice) : Option (Slice × Slice × Slice) :=
  slice.next?.bind fun body =>
    (if body.startsWith '{' then some (body.block?.getD (body.drop 1, body.fromOffset body.stop))
    else (afterStatement? levels body).map fun after => (body.toOffset after.start, after)).map
      fun (inner, after) => (body, inner, after)

theorem body?_eq : body? levels below relation slice =
    (bodyRange? levels slice).map fun (body, inner, after) =>
      (.node ⟨.blockStatement, relation, body.start, none, .absent⟩
        (below.elim [] (·.block inner)), after) := by
  rw [body?, bodyRange?]
  cases slice.next? with
  | none => rfl
  | some body =>
    simp only [Option.bind_some, Option.map_map]
    cases below <;> rfl

theorem bodyRange?_spec {body : Slice} (h : bodyRange? levels slice = some (body, inner, after)) :
    slice.next? = some body ∧ IsPart inner body ∧ IsTail after body ∧
      inner.stop ≤ after.start ∧ body.start < after.start := by
  rw [bodyRange?, Option.bind_eq_some_iff] at h
  obtain ⟨body', hn, h⟩ := h
  obtain ⟨_, _, hne⟩ := Slice.next?_spec hn
  rw [Option.map_eq_some_iff] at h
  obtain ⟨⟨inner', rest⟩, he, h⟩ := h
  cases h
  refine ⟨hn, ?_⟩
  split at he
  · next hb =>
    cases hblock : body.block? with
    | none =>
      rw [hblock] at he
      cases he
      have ht := Slice.isTail_drop_one hb
      exact ⟨ht.isPart, Slice.isTail_fromOffset (Slice.start_le_stop _) (Nat.le_refl _),
        Nat.le_of_eq ht.stop_eq, hne⟩
    | some found =>
      rw [hblock] at he
      cases he
      obtain ⟨hi, ha, hlt, hle⟩ := Slice.block?_spec hblock
      have := inner.start_le_stop
      exact ⟨hi, ha, Nat.le_of_lt hle, by omega⟩
  · rw [Option.map_eq_some_iff] at he
    obtain ⟨rest', ha, he⟩ := he
    cases he
    obtain ⟨ht, hlt⟩ := afterStatement?_spec ha hne
    exact ⟨Slice.isPart_toOffset .., ht, Slice.stop_toOffset_le (Nat.le_of_lt hlt), hlt⟩

theorem body?_spec (h : body? levels below relation slice = some (outline, after)) :
    ∃ body inner, bodyRange? levels slice = some (body, inner, after) ∧
      outline = .node ⟨.blockStatement, relation, body.start, none, .absent⟩
        (below.elim [] (·.block inner)) := by
  rw [body?_eq, Option.map_eq_some_iff] at h
  obtain ⟨⟨body, inner, rest⟩, hr, he⟩ := h
  cases he
  exact ⟨body, inner, hr, rfl⟩

/-- Each text that the outline quotes stands in the given slice. -/
def Quotes (whole : Slice) (outline : Outline) : Prop :=
  ∀ item ∈ outline.walk, ∀ slice, item.wording = .quoted slice → IsPart slice whole

theorem quotes_node {item : Item} {children : List Outline} :
    Quotes whole (.node item children) ↔
      (∀ slice, item.wording = .quoted slice → IsPart slice whole) ∧
        ∀ child ∈ children, Quotes whole child :=
  Tree.forall_mem_walk_node

theorem Quotes.mono (h : Quotes slice outline) (hp : IsPart slice whole) : Quotes whole outline :=
  fun item hm part hw => (h item hm part hw).trans hp

theorem quotes_leaf (kind : NodeKind) (h : IsPart slice whole) :
    Quotes whole (leaf kind relation slice) := by
  rw [leaf, quotes_node]
  refine ⟨?_, fun child hc => absurd hc List.not_mem_nil⟩
  intro part hw
  cases hw
  exact h

theorem quotes_relabel {item : Item → Item} (hi : ∀ i, (item i).wording = i.wording)
    (h : Quotes whole outline) : Quotes whole (outline.relabel item) := by
  obtain ⟨label, children⟩ := outline
  rw [quotes_node] at h
  rw [Tree.relabel, quotes_node, hi]
  exact h

theorem quotes_ofDeclaration {declaration : Declaration}
    (h : Declaration.read? slice = some declaration) :
    Quotes slice (ofDeclaration relation declaration) := by
  obtain ⟨_, _, _, hi⟩ := Declaration.read?_spec h
  rw [ofDeclaration, quotes_node]
  refine ⟨fun _ hw => (by cases hw), ?_⟩
  intro child hc
  obtain ⟨value, hv, rfl⟩ := List.mem_map.1 hc
  exact quotes_leaf _ (hi value (Option.mem_toList.1 hv))

theorem quotes_ofCall {name : Slice} (h : IsPart inner whole) :
    Quotes whole (ofCall relation name inner) := by
  rw [ofCall, quotes_node]
  refine ⟨fun _ hw => (by cases hw), ?_⟩
  intro child hc
  obtain ⟨piece, hp, rfl⟩ := List.mem_map.1 hc
  exact quotes_leaf _ ((Slice.isPart_split (List.mem_filter.1 hp).1).trans h)

theorem findCall?_begins {cells : List Cell} {skipped position : Nat}
    (h : findCall? skipped position cells = some outline) :
    ∃ tail name list inner after, IsTail tail ⟨position, cells⟩ ∧
      tail.opening? isCallWord = some (name, list) ∧ list.block? = some (inner, after) ∧
      outline = ofCall .call name inner := by
  induction cells generalizing skipped position with
  | nil => cases h
  | cons cell rest ih =>
    have hlater {skipped} (h : findCall? skipped (position + 1) rest = some outline) :
        ∃ tail name list inner after, IsTail tail ⟨position, cell :: rest⟩ ∧
          tail.opening? isCallWord = some (name, list) ∧ list.block? = some (inner, after) ∧
          outline = ofCall .call name inner := by
      obtain ⟨tail, name, list, inner, after, ht, hfound⟩ := ih h
      exact ⟨tail, name, list, inner, after, ht.trans (Slice.isTail_cons ..), hfound⟩
    rw [findCall?.eq_def] at h
    simp only at h
    split at h
    · exact hlater h
    · split at h
      · exact hlater h
      · next name list ho =>
        split at h
        · exact hlater h
        · split at h
          · next inner after hb =>
            cases h
            exact ⟨_, name, list, inner, after, IsTail.refl _, ho, hb, rfl⟩
          · exact hlater h

theorem findCall?_spec {cells : List Cell} {skipped position : Nat}
    (h : findCall? skipped position cells = some outline) :
    ∃ name inner, outline = ofCall .call name inner ∧ IsPart inner ⟨position, cells⟩ := by
  obtain ⟨tail, name, list, inner, after, ht, ho, hb, rfl⟩ := findCall?_begins h
  exact ⟨name, inner, rfl, (Slice.block?_spec hb).1.trans ((Slice.opening?_spec ho).1.trans ht).isPart⟩

theorem return?_spec (h : return? slice = some outline) :
    ∃ rest stop value, slice.after? "return" = some rest ∧ rest.find? 0x3B = some stop ∧
      value = (rest.toOffset stop).trim ∧
      outline = .node ⟨.returnStatement, .statement, slice.start, none, .quoted value⟩
        (findCall? 0 value.start value.cells).toList := by
  rw [return?, Option.bind_eq_some_iff] at h
  obtain ⟨rest, hr, h⟩ := h
  rw [Option.map_eq_some_iff] at h
  obtain ⟨stop, hf, rfl⟩ := h
  exact ⟨rest, stop, _, hr, hf, rfl, rfl⟩

theorem callStatement?_spec (h : callStatement? slice = some outline) :
    ∃ heading, slice.heading? = some heading ∧
      outline = ofCall .statement heading.name heading.inner := by
  rw [callStatement?, Option.bind_eq_some_iff] at h
  obtain ⟨heading, hh, h⟩ := h
  split at h
  · cases h
  · split at h
    · cases h
      exact ⟨heading, hh, rfl⟩
    · cases h

theorem quotes_return? (h : return? slice = some outline) : Quotes slice outline := by
  obtain ⟨rest, stop, value, hr, _, rfl, rfl⟩ := return?_spec h
  have hv : IsPart (rest.toOffset stop).trim slice :=
    (Slice.isPart_trim _).trans ((Slice.isPart_toOffset ..).trans (Slice.after?_spec hr).1.isPart)
  rw [quotes_node]
  refine ⟨?_, ?_⟩
  · intro part hw
    cases hw
    exact hv
  · intro child hc
    obtain ⟨name, inner, rfl, hi⟩ := findCall?_spec (Option.mem_toList.1 hc)
    exact quotes_ofCall (hi.trans hv)

theorem quotes_callStatement? (h : callStatement? slice = some outline) :
    Quotes slice outline := by
  obtain ⟨heading, hh, rfl⟩ := callStatement?_spec h
  exact quotes_ofCall (Slice.heading?_spec hh).2.1

/-- Whether a level quotes the blocks and the texts it is given. -/
structure Level.Quotes (level : Level) : Prop where
  block : ∀ slice, ∀ outline ∈ level.block slice, Outline.Quotes slice outline
  conditional : ∀ slice outline after, level.conditional? slice = some (outline, after) →
    Outline.Quotes slice outline

/-- The kind of the statement that a keyword heads. -/
def headedKind (keyword : String) : NodeKind :=
  if keyword = "if" then .ifStatement else if keyword = "for" then .forStatement else .whileStatement

/-- How the first body of a statement hangs off it, by its keyword. -/
def bodyRelation (keyword : String) : Relation :=
  if keyword = "if" then .consequent else .body

theorem bodyRelation_mem (keyword : String) :
    bodyRelation keyword ∈ [.body, .consequent, .alternative] := by
  rw [bodyRelation]
  split <;> simp

/-- The bodies of a heading, given what follows it, and what follows them: none, one, or those of
a conditional with an `else`. -/
inductive Bodies (levels : Nat) (below : Option Level) (keyword : String) :
    Slice → List Outline → Slice → Prop where
  | none {slice : Slice} (hb : body? levels below (bodyRelation keyword) slice = none) :
      Bodies levels below keyword slice [] slice
  | one {slice after : Slice} {body : Outline}
      (hb : body? levels below (bodyRelation keyword) slice = some (body, after))
      (ha : keyword = "if" →
        (after.next?.bind (Slice.after? "else")).bind (alternative? levels below) = none) :
      Bodies levels below keyword slice [body] after
  | two {slice middle other after : Slice} {body alternative : Outline}
      (hk : keyword = "if")
      (hb : body? levels below .consequent slice = some (body, middle))
      (he : middle.next?.bind (Slice.after? "else") = some other)
      (ha : alternative? levels below other = some (alternative, after)) :
      Bodies levels below keyword slice [body, alternative] after

/-- What the leaves of a heading can be. -/
def clauses : List (NodeKind × Relation) :=
  [(.binaryExpression, .condition), (.initialization, .init), (.test, .test), (.update, .update)]

/-- The clause of a heading at an index, or else the end of the heading. -/
def clause (inner : Slice) (index : Nat) : Slice :=
  (inner.split 0x3B)[index]?.getD ⟨inner.stop, []⟩

theorem isPart_clause (inner : Slice) (index : Nat) : IsPart (clause inner index) inner := by
  rw [clause]
  cases hg : (inner.split 0x3B)[index]? with
  | none => exact ⟨inner.cells, [], by simp, rfl⟩
  | some piece => exact Slice.isPart_split (List.mem_of_getElem? hg)

/-- The leaves of a heading, by the kind of its statement. -/
inductive Clauses (inner : Slice) : NodeKind → List Outline → Prop where
  | conditional : Clauses inner .ifStatement [leaf .binaryExpression .condition inner]
  | forLoop : Clauses inner .forStatement [leaf .initialization .init (clause inner 0),
      leaf .test .test (clause inner 1), leaf .update .update (clause inner 2)]
  | whileLoop : Clauses inner .whileStatement [leaf .test .test inner]

theorem Clauses.leaf_of_mem {kind : NodeKind} {leaves : List Outline}
    (h : Clauses inner kind leaves) : ∀ tree ∈ leaves, ∃ kind relation part,
      tree = leaf kind relation part ∧ (kind, relation) ∈ clauses ∧ IsPart part inner := by
  cases h with
  | conditional | whileLoop =>
    intro tree hm
    rw [List.mem_singleton.1 hm]
    exact ⟨_, _, _, rfl, by simp [clauses], IsPart.refl _⟩
  | forLoop =>
    simp only [List.mem_cons, List.not_mem_nil, or_false]
    rintro tree (rfl | rfl | rfl) <;> exact ⟨_, _, _, rfl, by simp [clauses], isPart_clause ..⟩

theorem Clauses.kind {kind : NodeKind} {leaves : List Outline} (h : Clauses inner kind leaves) :
    kind ∈ [.ifStatement, .forStatement, .whileStatement] := by
  cases h <;> simp

/-- A heading with leaves from its parentheses and with its bodies. -/
structure Headed (levels : Nat) (below : Option Level) (slice : Slice) (outline : Outline)
    (after : Slice) where
  heading : Heading
  item : Item
  leaves : List Outline
  bodies : List Outline
  read : slice.heading? = some heading
  outline_eq : outline = .node item (leaves ++ bodies)
  header : Clauses heading.inner item.kind leaves
  relation : item.relation = .statement
  offset : item.offset = slice.start
  name : item.name = none
  wording : item.wording = .absent
  keyword : heading.name.text ∈ ["if", "for", "while"]
  kind_eq : item.kind = headedKind heading.name.text
  room : slice.start + leaves.length + 2 ≤ heading.after.start
  follow : Bodies levels below heading.name.text heading.after bodies after

theorem Headed.kind (h : Headed levels below slice outline after) :
    h.item.kind ∈ [.ifStatement, .forStatement, .whileStatement] :=
  h.header.kind

theorem Headed.leaf_of_mem (h : Headed levels below slice outline after) :
    ∀ tree ∈ h.leaves, ∃ kind relation part, tree = leaf kind relation part ∧
      (kind, relation) ∈ clauses ∧ IsPart part h.heading.inner :=
  h.header.leaf_of_mem

theorem conditional?_spec (h : conditional? levels below slice = some (outline, after)) :
    Nonempty (Headed levels below slice outline after) := by
  rw [conditional?, Option.bind_eq_some_iff] at h
  obtain ⟨heading, hh, h⟩ := h
  have hroom := Slice.heading?_room hh
  let item : Item := ⟨.ifStatement, .statement, slice.start, none, .absent⟩
  let leaves := [leaf .binaryExpression .condition heading.inner]
  split at h
  · next hk =>
    have hm : heading.name.text ∈ ["if", "for", "while"] := by simp [hk]
    have hkind : item.kind = headedKind heading.name.text := by rw [hk]; rfl
    have hrelation : bodyRelation heading.name.text = .consequent := if_pos hk
    have hr : slice.start + 1 + 2 ≤ heading.after.start := by
      rw [hk] at hroom
      exact Nat.le_of_succ_le hroom
    simp only at h
    split at h
    · next hb =>
      cases h
      exact ⟨heading, item, leaves, [], hh, rfl, .conditional, rfl, rfl, rfl, rfl, hm, hkind, hr,
        .none (hrelation ▸ hb)⟩
    · next consequent middle hb =>
      split at h
      · next ha =>
        cases h
        exact ⟨heading, item, leaves, [consequent], hh, rfl, .conditional, rfl, rfl, rfl, rfl, hm,
          hkind, hr, .one (hrelation ▸ hb) fun _ => ha⟩
      · next alternative rest ha =>
        cases h
        rw [Option.bind_eq_some_iff] at ha
        obtain ⟨other, he, ha⟩ := ha
        exact ⟨heading, item, leaves, [consequent, alternative], hh, rfl, .conditional, rfl, rfl,
          rfl, rfl, hm, hkind, hr, .two hk hb he ha⟩
  · cases h

theorem forLoop?_spec (h : forLoop? levels below slice = some (outline, after)) :
    Nonempty (Headed levels below slice outline after) := by
  rw [forLoop?, Option.bind_eq_some_iff] at h
  obtain ⟨heading, hh, h⟩ := h
  have hroom := Slice.heading?_room hh
  let item : Item := ⟨.forStatement, .statement, slice.start, none, .absent⟩
  let leaves := [leaf .initialization .init (clause heading.inner 0),
    leaf .test .test (clause heading.inner 1), leaf .update .update (clause heading.inner 2)]
  split at h
  · next hk =>
    have hm : heading.name.text ∈ ["if", "for", "while"] := by simp [hk]
    have hr : slice.start + 3 + 2 ≤ heading.after.start := by
      rw [hk] at hroom
      exact hroom
    have hkind : item.kind = headedKind heading.name.text := by rw [hk]; rfl
    have hrelation : bodyRelation heading.name.text = .body := by rw [hk]; rfl
    have hne : heading.name.text ≠ "if" := by rw [hk]; decide
    simp only at h
    split at h
    · next body rest hb =>
      cases h
      exact ⟨heading, item, leaves, [body], hh, rfl, .forLoop, rfl, rfl, rfl, rfl, hm, hkind, hr,
        .one (hrelation ▸ hb) fun he => absurd he hne⟩
    · next hb =>
      cases h
      exact ⟨heading, item, leaves, [], hh, rfl, .forLoop, rfl, rfl, rfl, rfl, hm, hkind, hr,
        .none (hrelation ▸ hb)⟩
  · cases h

theorem whileLoop?_spec (h : whileLoop? levels below slice = some (outline, after)) :
    Nonempty (Headed levels below slice outline after) := by
  rw [whileLoop?, Option.bind_eq_some_iff] at h
  obtain ⟨heading, hh, h⟩ := h
  have hroom := Slice.heading?_room hh
  let item : Item := ⟨.whileStatement, .statement, slice.start, none, .absent⟩
  let leaves := [leaf .test .test heading.inner]
  split at h
  · next hk =>
    have hm : heading.name.text ∈ ["if", "for", "while"] := by simp [hk.1]
    have hr : slice.start + 1 + 2 ≤ heading.after.start := by
      have hl : "while".length = 5 := rfl
      rw [hk.1, hl] at hroom
      omega
    have hkind : item.kind = headedKind heading.name.text := by rw [hk.1]; rfl
    have hrelation : bodyRelation heading.name.text = .body := by rw [hk.1]; rfl
    have hne : heading.name.text ≠ "if" := by rw [hk.1]; decide
    simp only at h
    split at h
    · next body rest hb =>
      cases h
      exact ⟨heading, item, leaves, [body], hh, rfl, .whileLoop, rfl, rfl, rfl, rfl, hm, hkind, hr,
        .one (hrelation ▸ hb) fun he => absurd he hne⟩
    · next hb =>
      cases h
      exact ⟨heading, item, leaves, [], hh, rfl, .whileLoop, rfl, rfl, rfl, rfl, hm, hkind, hr,
        .none (hrelation ▸ hb)⟩
  · cases h

/-- What a recognised statement can be. -/
inductive Recognised (levels : Nat) (below : Option Level) (slice : Slice) (outline : Outline) :
    Prop where
  | declared {declaration : Declaration} (h : Declaration.read? slice = some declaration)
      (he : outline = ofDeclaration .statement declaration)
  | returned (hd : Declaration.read? slice = none) (h : return? slice = some outline)
  | called (h : callStatement? slice = some outline)
  | headed {after : Slice} (h : Headed levels below slice outline after)

theorem statement?_spec (h : statement? levels below slice = some outline) :
    Recognised levels below slice outline := by
  rw [statement?] at h
  simp only [Option.or_eq_some_iff, Option.map_eq_some_iff] at h
  rcases h with ⟨declaration, hd, rfl⟩ | ⟨hd, ⟨⟨_, after⟩, hc, rfl⟩ | ⟨_, ⟨⟨_, after⟩, hc, rfl⟩ |
    ⟨_, ⟨⟨_, after⟩, hc, rfl⟩ | ⟨_, hr | ⟨_, hc⟩⟩⟩⟩⟩
  · exact .declared hd rfl
  · exact (conditional?_spec hc).elim .headed
  · exact (forLoop?_spec hc).elim .headed
  · exact (whileLoop?_spec hc).elim .headed
  · exact .returned (Option.map_eq_none_iff.1 hd) hr
  · exact .called hc

theorem offset_statement? (h : statement? levels below slice = some outline) :
    outline.label.offset = slice.start := by
  cases statement?_spec h with
  | declared hd he =>
    rw [he]
    exact (Declaration.read?_spec hd).1
  | returned _ hr =>
    obtain ⟨_, _, _, _, _, _, rfl⟩ := return?_spec hr
    rfl
  | called hc =>
    obtain ⟨_, hh, rfl⟩ := callStatement?_spec hc
    exact (Slice.heading?_spec hh).2.2.2.1
  | headed hh =>
    rw [hh.outline_eq]
    exact hh.offset

section

variable (hlevel : ∀ level ∈ below, Level.Quotes level)
include hlevel

theorem quotes_body? (h : body? levels below relation slice = some (outline, after)) :
    Quotes slice outline := by
  obtain ⟨body, inner, hr, rfl⟩ := body?_spec h
  obtain ⟨hn, hi, _⟩ := bodyRange?_spec hr
  rw [quotes_node]
  refine ⟨fun _ hw => (by cases hw), ?_⟩
  cases below with
  | none => exact fun child hc => absurd hc List.not_mem_nil
  | some level =>
    intro child hc
    exact ((hlevel level rfl).block inner child hc).mono
      (hi.trans (Slice.next?_spec hn).2.1.isPart)

theorem quotes_alternative? (h : alternative? levels below slice = some (outline, after)) :
    Quotes slice outline := by
  rw [alternative?] at h
  split at h
  · next conditional rest hc =>
    cases h
    simp only [Option.bind_eq_some_iff] at hc
    obtain ⟨level, hl, next, hn, hc⟩ := hc
    exact quotes_relabel (fun _ => rfl)
      (((hlevel level hl).conditional next conditional _ hc).mono (Slice.next?_spec hn).2.1.isPart)
  · exact quotes_body? hlevel h

theorem quotes_bodies {keyword : String} {bodies : List Outline}
    (h : Bodies levels below keyword slice bodies after) :
    ∀ body ∈ bodies, Quotes slice body := by
  cases h with
  | none => exact fun body hm => absurd hm List.not_mem_nil
  | one hb =>
    intro body hm
    rw [List.mem_singleton.1 hm]
    exact quotes_body? hlevel hb
  | two _ hb he ha =>
    obtain ⟨_, _, hr, _⟩ := body?_spec hb
    obtain ⟨hn, _, hm, _⟩ := bodyRange?_spec hr
    rw [Option.bind_eq_some_iff] at he
    obtain ⟨next, hnext, he⟩ := he
    have hp := (Slice.after?_spec he).1.isPart.trans ((Slice.next?_spec hnext).2.1.isPart.trans
      (hm.isPart.trans (Slice.next?_spec hn).2.1.isPart))
    simp only [List.mem_cons, List.not_mem_nil, or_false]
    rintro body (rfl | rfl)
    · exact quotes_body? hlevel hb
    · exact (quotes_alternative? hlevel ha).mono hp

theorem quotes_headed (h : Headed levels below slice outline after) : Quotes slice outline := by
  obtain ⟨_, hi, ha, _⟩ := Slice.heading?_spec h.read
  rw [h.outline_eq, quotes_node, h.wording]
  refine ⟨fun _ hw => (by cases hw), ?_⟩
  intro child hc
  rcases List.mem_append.1 hc with hc | hc
  · obtain ⟨kind, relation, part, rfl, _, hp⟩ := h.leaf_of_mem child hc
    exact quotes_leaf kind (hp.trans hi)
  · exact (quotes_bodies hlevel h.follow child hc).mono ha.isPart

theorem quotes_statement? (h : statement? levels below slice = some outline) :
    Quotes slice outline := by
  cases statement?_spec h with
  | declared h he => exact he ▸ quotes_ofDeclaration h
  | returned _ h => exact quotes_return? h
  | called h => exact quotes_callStatement? h
  | headed h => exact quotes_headed hlevel h

theorem quotes_statements (h : outline ∈ statements levels below slice) :
    Quotes slice outline := by
  rw [statements, Slice.filterMap_statementStarts, List.mem_filterMap] at h
  obtain ⟨head, hm, h⟩ := h
  exact (quotes_statement? hlevel h).mono (Slice.isTail_of_mem_heads hm).isPart

end

theorem level_quotes (levels : Nat) : (level levels).Quotes := by
  induction levels with
  | zero =>
    have hb : ∀ level ∈ (none : Option Level), Level.Quotes level := fun _ h => by cases h
    refine ⟨fun slice outline h => quotes_statements hb h, ?_⟩
    intro slice outline after h
    exact (conditional?_spec h).elim (quotes_headed hb)
  | succ levels ih =>
    have hb : ∀ below ∈ some (level levels), Level.Quotes below := by
      intro below h
      cases h
      exact ih
    refine ⟨fun slice outline h => quotes_statements hb h, ?_⟩
    intro slice outline after h
    exact (conditional?_spec h).elim (quotes_headed hb)

theorem quotes_ofFunction {function : FunctionDefinition}
    (h : FunctionDefinition.read? slice = some function) : Quotes slice (ofFunction function) := by
  obtain ⟨_, _, hb, _⟩ := FunctionDefinition.read?_spec h
  rw [ofFunction, quotes_node]
  refine ⟨fun _ hw => (by cases hw), ?_⟩
  intro child hc
  rcases List.mem_append.1 hc with hc | hc
  · obtain ⟨parameter, _, rfl⟩ := List.mem_map.1 hc
    rw [ofParameter, quotes_node]
    refine ⟨?_, fun child hc => absurd hc List.not_mem_nil⟩
    intro part hw
    simp only at hw
    split at hw <;> cases hw
  · rw [List.mem_singleton.1 hc, quotes_node]
    refine ⟨fun _ hw => (by cases hw), ?_⟩
    intro child hc
    exact ((level_quotes maxNesting).block _ child hc).mono hb

theorem mem_children_ofText {text : Slice} {outline : Outline} :
    outline ∈ (ofText text).children ↔
      (∃ function ∈ FunctionDefinition.findAll text, outline = ofFunction function) ∨
      ∃ declaration ∈ Declaration.findGlobals text (FunctionDefinition.findAll text),
        outline = ofDeclaration .item declaration := by
  rw [ofText, Tree.children, List.mem_mergeSort, List.mem_append, List.mem_map, List.mem_map]
  simp only [eq_comm]

/-- Whatever the outline of a text quotes stands in the text. -/
theorem quotes_ofText (text : Slice) : Quotes text (ofText text) := by
  rw [ofText, quotes_node]
  refine ⟨fun _ hw => (by cases hw), ?_⟩
  intro child hc
  rcases mem_children_ofText.1 hc with ⟨function, hf, rfl⟩ | ⟨declaration, hd, rfl⟩
  · rw [FunctionDefinition.findAll, Slice.filterMap_statementStarts, List.mem_filterMap] at hf
    obtain ⟨head, hm, hf⟩ := hf
    exact (quotes_ofFunction hf).mono (Slice.isTail_of_mem_heads hm).isPart
  · rw [Declaration.findGlobals, Slice.filterMap_statementStarts, List.mem_filter,
      List.mem_filterMap] at hd
    obtain ⟨⟨head, hm, hd⟩, _⟩ := hd
    exact (quotes_ofDeclaration hd).mono (Slice.isTail_of_mem_heads hm).isPart

end Outline

end CodeOutline
