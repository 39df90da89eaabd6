import CodeOutline.Proofs.Outline.Part
import CodeOutline.Proofs.Shape.Aligned

namespace CodeOutline

variable {padded : Prop} {move : Nat → Nat}

/-- Headings at the place of each other. -/
structure Heading.Aligned (padded : Prop) (move : Nat → Nat) (heading heading' : Heading) :
    Prop where
  name : Slice.Matches move heading.name heading'.name
  inner : Slice.Aligned padded move heading.inner heading'.inner
  after : Slice.Aligned padded move heading.after heading'.after

namespace Slice

namespace Aligned

variable {slice slice' : Slice}

theorem next? (h : Aligned padded move slice slice') :
    Option.Rel (Aligned padded move) slice.next? slice'.next? :=
  rel_ite (by rw [h.skipBlank.isEmpty_eq]) .none (.some h.skipBlank)

theorem opening? (h : Aligned padded move slice slice') {cls : Char → Bool}
    (ht : Cell.Steady (Cell.within cls)) (hn : Cell.lineBreak.within cls = false) :
    Option.Rel (fun found found' => Matches move found.1 found'.1 ∧
      Aligned padded move found.2 found'.2) (slice.opening? cls) (slice'.opening? cls) := by
  refine rel_bind (h.word? ht hn) fun (name, after) (name', after') ⟨hname, hafter⟩ => ?_
  have hlist := hafter.skipSpace
  exact rel_ite (by rw [hlist.startsWith_eq (c := '(') (by rintro _ (_ | _) <;> rfl)])
    (.some ⟨hname, hlist⟩) .none

theorem heading? (h : Aligned padded move slice slice') :
    Option.Rel (Heading.Aligned padded move) slice.heading? slice'.heading? :=
  rel_bind (h.opening? Cell.steady_isWord rfl) fun _ _ ⟨hname, hlist⟩ =>
    rel_map hlist.block? fun _ _ ⟨hinner, hafter⟩ => ⟨hname, hinner, hafter⟩

theorem after? (h : Aligned padded move slice slice') (word : String) :
    Option.Rel (Aligned padded move) (slice.after? word) (slice'.after? word) :=
  rel_bind (h.word? Cell.steady_isWord rfl) fun _ _ ⟨hname, hafter⟩ =>
    rel_ite (by rw [hname.text_eq]) (.some hafter) .none

theorem pastSemicolon? (h : Aligned padded move slice slice') :
    Option.Rel (Aligned padded move) slice.pastSemicolon? slice'.pastSemicolon? := by
  rw [Slice.pastSemicolon?, Slice.pastSemicolon?, h.find? rfl]
  cases hf : slice.find? 0x3B with
  | none => exact .none
  | some stop => exact .some (h.past (find?_spec hf) rfl)

theorem fromStop (h : Aligned padded move slice slice') :
    Aligned padded move (slice.fromOffset slice.stop) (slice'.fromOffset slice'.stop) := by
  rw [h.stop_eq]
  exact h.fromOffset (start_le_stop slice) (Nat.le_refl _)

end Aligned

end Slice

/-- Whether nodes of the kind show words of the masked text. -/
def NodeKind.isDeclared : NodeKind → Bool
  | .functionDeclaration | .parameter | .variableDeclaration => true
  | _ => false

/-- Wordings at the place of each other. -/
inductive Wording.Aligned (padded : Prop) (move : Nat → Nat) : Wording → Wording → Prop where
  | absent : Aligned padded move .absent .absent
  | words {text text' : String} (h : ¬ padded → text' = text) :
      Aligned padded move (.words text) (.words text')
  | quoted {slice slice' : Slice} (h : Slice.Aligned padded move slice slice') :
      Aligned padded move (.quoted slice) (.quoted slice')

/-- Items at the place of each other. What is declared is never quoted. -/
structure Item.Aligned (padded : Prop) (move : Nat → Nat) (item item' : Item) : Prop where
  kind_eq : item'.kind = item.kind
  relation_eq : item'.relation = item.relation
  offset_eq : item'.offset = move item.offset
  name_eq : item'.name = item.name
  wording : Wording.Aligned padded move item.wording item'.wording
  unquoted : item.kind.isDeclared → ∀ slice, item.wording ≠ .quoted slice

namespace Outline

/-- Outlines at the place of each other. -/
abbrev Aligned (padded : Prop) (move : Nat → Nat) : Outline → Outline → Prop :=
  Tree.Related (Item.Aligned padded move)

/-- Statements at the place of each other, and what follows them. -/
def Follow (padded : Prop) (move : Nat → Nat) (found found' : Outline × Slice) : Prop :=
  Aligned padded move found.1 found'.1 ∧ Slice.Aligned padded move found.2 found'.2

variable {slice slice' : Slice} {relation : Relation} {kind : NodeKind}

theorem aligned_leaf (hk : kind.isDeclared = false) (relation : Relation)
    (h : Slice.Aligned padded move slice slice') :
    Aligned padded move (leaf kind relation slice) (leaf kind relation slice') :=
  .node ⟨rfl, rfl, h.trim.start_eq, rfl, .quoted h, fun hd => absurd (hk.symm.trans hd) (by simp)⟩
    .nil

theorem aligned_node (kind : NodeKind) (relation : Relation) (name : Option String)
    {offset offset' : Nat} (ho : offset' = move offset) {children children' : List Outline}
    (hc : List.Forall₂ (Aligned padded move) children children') :
    Aligned padded move (.node ⟨kind, relation, offset, name, .absent⟩ children)
      (.node ⟨kind, relation, offset', name, .absent⟩ children') :=
  .node ⟨rfl, rfl, ho, rfl, .absent, fun _ _ hq => by cases hq⟩ hc

theorem aligned_ofDeclaration (relation : Relation) {declaration declaration' : Declaration}
    (h : Declaration.Aligned padded move declaration declaration') :
    Aligned padded move (ofDeclaration relation declaration)
      (ofDeclaration relation declaration') := by
  refine .node ⟨rfl, rfl, h.start_eq, congrArg some h.name_eq, .words h.declaredType_eq,
    fun _ _ hq => by cases hq⟩ ?_
  exact forall₂_map (forall₂_toList h.initializer) fun _ _ => aligned_leaf rfl .initializer

theorem aligned_ofCall (relation : Relation) {name name' inner inner' : Slice}
    (hname : Slice.Matches move name name') (hinner : Slice.Aligned padded move inner inner') :
    Aligned padded move (ofCall relation name inner) (ofCall relation name' inner') := by
  rw [ofCall, ofCall, hname.text_eq]
  refine aligned_node _ _ _ hname.start_eq (forall₂_map (List.rel_filter ?_
    (hinner.split (show CharClass.isBlank 0x2C = false from rfl)))
      fun _ _ => aligned_leaf rfl .argument)
  intro piece piece' hp
  simp only [hp.trim.isEmpty_eq]

theorem steady_isCallWord : Cell.Steady (Cell.within isCallWord) := by
  rintro _ (_ | _) <;> rfl

theorem findCall?_of_not_begins {cell : Cell} (hc : cell.begins CharClass.isWordStart = false)
    (position : Nat) (rest : List Cell) :
    findCall? 0 position (cell :: rest) = findCall? 0 (position + 1) rest := by
  rw [findCall?, Slice.opening?, Slice.word?]
  simp only [hc, Bool.false_eq_true, if_false, Option.bind_none]

section

variable (hmove : StrictMono move)

include hmove

theorem findCall?_cons_aligned {position : Nat} {left right : List Cell} {cell : Cell}
    (haligned : Slice.Aligned padded move ⟨position, cell :: left⟩ ⟨move position, cell :: right⟩)
    (hrest : ∀ skipped skipped', move (position + 1 + skipped) = move position + 1 + skipped' →
      Option.Rel (Aligned padded move) (findCall? skipped (position + 1) left)
        (findCall? skipped' (move position + 1) right))
    (hm : move (position + 1) = move position + 1) :
    Option.Rel (Aligned padded move) (findCall? 0 position (cell :: left))
      (findCall? 0 (move position) (cell :: right)) := by
  have hopening := haligned.opening? steady_isCallWord rfl
  rw [findCall?, findCall?]
  cases ho : Slice.opening? isCallWord ⟨position, cell :: left⟩ with
  | none =>
    rw [ho] at hopening
    generalize Slice.opening? isCallWord ⟨move position, cell :: right⟩ = found at hopening ⊢
    cases hopening
    exact hrest 0 0 hm
  | some found =>
    obtain ⟨name, list⟩ := found
    obtain ⟨_, _, hlt, hp⟩ := Slice.opening?_spec ho
    rw [ho] at hopening
    generalize Slice.opening? isCallWord ⟨move position, cell :: right⟩ = found at hopening ⊢
    cases hopening with
    | @some _ found hfound =>
      obtain ⟨name', list'⟩ := found
      obtain ⟨hname, hlist⟩ := hfound
      have hpast : list'.start + 1 = move (list.start + 1) := (hlist.drop_one hp rfl).start_eq
      have hstart : list'.start = move list.start := hlist.start_eq
      have hlist_lt : position < list.start := hlt
      have hlt' := hmove hlist_lt
      have hplace : position + 1 + (list.start - position) = list.start + 1 := by omega
      have hskip := hrest (list.start - position) (list'.start - move position) (by
        rw [hplace]
        omega)
      have hblock := hlist.block?
      simp only [hname.text_eq]
      split
      · exact hskip
      · generalize list.block? = block at hblock ⊢
        generalize list'.block? = block' at hblock ⊢
        cases hblock with
        | none => exact hskip
        | some hblock => exact .some (aligned_ofCall .call hname hblock.1)

/-- A search that goes on at one place of two texts finds the same call. -/
theorem findCall?_aligned {position skipped skipped' : Nat} {left right : List Cell}
    (h : Cell.Aligned padded move position left right)
    (hs : move (position + skipped) = move position + skipped') :
    Option.Rel (Aligned padded move) (findCall? skipped position left)
      (findCall? skipped' (move position) right) := by
  induction h generalizing skipped skipped' with
  | nil => exact .none
  | @cons position left right cell hm h ih =>
    rw [hm] at ih
    cases skipped with
    | zero =>
      obtain rfl : skipped' = 0 := by
        rw [Nat.add_zero] at hs
        omega
      exact findCall?_cons_aligned hmove ⟨rfl, .cons cell hm h⟩ (fun _ _ => ih) hm
    | succ skipped =>
      have hle := hmove.monotone (Nat.le_add_right (position + 1) skipped)
      rw [Nat.add_comm skipped, ← Nat.add_assoc] at hs
      obtain ⟨skipped', rfl⟩ : ∃ n, skipped' = n + 1 := Nat.exists_eq_add_one.2 (by omega)
      rw [findCall?, findCall?]
      exact ih (by omega)
  | @pad position left right blank _ hb hm _ ih =>
    rw [hm] at ih
    cases skipped with
    | zero =>
      obtain rfl : skipped' = 0 := by
        rw [Nat.add_zero] at hs
        omega
      have hblank : blank.begins CharClass.isWordStart = false := by cases hb <;> rfl
      rw [findCall?_of_not_begins rfl, findCall?_of_not_begins hblank, findCall?_of_not_begins rfl]
      exact ih hm
    | succ skipped =>
      have hle := hmove.monotone (Nat.le_add_right (position + 1) skipped)
      rw [Nat.add_comm skipped, ← Nat.add_assoc] at hs
      obtain ⟨skipped', rfl⟩ : ∃ n, skipped' = n + 1 + 1 := ⟨skipped' - 2, by omega⟩
      rw [findCall?, findCall?, findCall?]
      exact ih (by omega)

theorem return?_aligned (h : Slice.Aligned padded move slice slice') :
    Option.Rel (Aligned padded move) (return? slice) (return? slice') := by
  refine rel_bind (h.after? "return") fun rest rest' hrest => ?_
  rw [hrest.find? rfl]
  cases hf : rest.find? 0x3B with
  | none => exact .none
  | some stop =>
    obtain ⟨hl, hr⟩ := Slice.find?_bounds hf
    have hvalue := (hrest.toOffset hl (Nat.le_of_lt hr)).trim
    have hcall := findCall?_aligned hmove hvalue.cells
      (show move (_ + 0) = move _ + 0 from rfl)
    rw [← hvalue.start_eq] at hcall
    exact .some (.node ⟨rfl, rfl, h.start_eq, rfl, .quoted hvalue, fun hd => by cases hd⟩
      (forall₂_toList hcall))

end

theorem callStatement?_aligned (h : Slice.Aligned padded move slice slice') :
    Option.Rel (Aligned padded move) (callStatement? slice) (callStatement? slice') := by
  refine rel_bind h.heading? fun heading heading' hh => ?_
  have hstarts := hh.after.skipBlank.startsWith_eq (c := ';') (by rintro _ (_ | _) <;> rfl)
  rw [hh.name.text_eq]
  exact rel_ite Iff.rfl .none
    (rel_ite (by rw [hstarts]) (.some (aligned_ofCall .statement hh.name hh.inner)) .none)

theorem afterBrace_aligned (h : Slice.Aligned padded move slice slice') :
    Option.Rel (Slice.Aligned padded move)
      (match slice.block? with
        | some (_, after) => some after
        | none => some (slice.fromOffset slice.stop))
      (match slice'.block? with
        | some (_, after) => some after
        | none => some (slice'.fromOffset slice'.stop)) := by
  have hblock := h.block?
  generalize slice.block? = block at hblock ⊢
  generalize slice'.block? = block' at hblock ⊢
  cases hblock with
  | none => exact .some h.fromStop
  | some hblock => exact .some hblock.2

theorem startsBrace_eq (h : Slice.Aligned padded move slice slice') :
    slice'.startsWith '{' = slice.startsWith '{' :=
  h.startsWith_eq (by rintro _ (_ | _) <;> rfl)

theorem afterStatement?_aligned (levels : Nat) (h : Slice.Aligned padded move slice slice') :
    Option.Rel (Slice.Aligned padded move) (afterStatement? levels slice)
      (afterStatement? levels slice') := by
  induction levels generalizing slice slice' with
  | zero =>
    rw [afterStatement?, afterStatement?]
    exact rel_ite (by rw [startsBrace_eq h]) (afterBrace_aligned h) h.pastSemicolon?
  | succ levels ih =>
    rw [afterStatement?, afterStatement?]
    refine rel_ite (by rw [startsBrace_eq h]) (afterBrace_aligned h) ?_
    have hheading := h.heading?
    generalize slice.heading? = heading at hheading ⊢
    generalize slice'.heading? = heading' at hheading ⊢
    cases hheading with
    | none => exact h.pastSemicolon?
    | some hh =>
      simp only [hh.name.text_eq]
      refine rel_ite Iff.rfl ?_ h.pastSemicolon?
      refine rel_bind (rel_bind hh.after.next? fun _ _ => ih) fun after after' ha => ?_
      refine rel_ite Iff.rfl ?_ (.some ha)
      have hother := rel_bind (rel_bind ha.next? fun _ _ hn => hn.after? "else")
        fun _ _ => Slice.Aligned.next?
      generalize (after.next?.bind _).bind _ = other at hother ⊢
      generalize (after'.next?.bind _).bind _ = other' at hother ⊢
      cases hother with
      | none => exact .some ha
      | some hother => exact ih hother

theorem bodyRange?_aligned (levels : Nat) (h : Slice.Aligned padded move slice slice') :
    Option.Rel (fun found found' => Slice.Aligned padded move found.1 found'.1 ∧
        Slice.Aligned padded move found.2.1 found'.2.1 ∧
        Slice.Aligned padded move found.2.2 found'.2.2)
      (bodyRange? levels slice) (bodyRange? levels slice') := by
  rw [bodyRange?, bodyRange?]
  have hnext := h.next?
  cases hn : slice.next? with
  | none =>
    rw [hn] at hnext
    generalize slice'.next? = next' at hnext ⊢
    cases hnext
    exact .none
  | some body =>
    obtain ⟨_, _, hne⟩ := Slice.next?_spec hn
    rw [hn] at hnext
    generalize slice'.next? = next' at hnext ⊢
    cases hnext with
    | @some _ body' hbody =>
      have hstarts := startsBrace_eq hbody
      simp only [Option.bind_some, hstarts]
      split
      · next hs =>
        have hblock := hbody.block?
        generalize body.block? = block at hblock ⊢
        generalize body'.block? = block' at hblock ⊢
        cases hblock with
        | none => exact .some ⟨hbody, hbody.drop_one hs rfl, hbody.fromStop⟩
        | some hblock => exact .some ⟨hbody, hblock⟩
      · have hafter := afterStatement?_aligned levels hbody
        cases ha : afterStatement? levels body with
        | none =>
          rw [ha] at hafter
          generalize afterStatement? levels body' = after' at hafter ⊢
          cases hafter
          exact .none
        | some after =>
          obtain ⟨ht, hlt⟩ := afterStatement?_spec ha hne
          rw [ha] at hafter
          generalize afterStatement? levels body' = after' at hafter ⊢
          cases hafter with
          | some hafter =>
            have hinner := hbody.toOffset (Nat.le_of_lt hlt)
              (Nat.le_trans (Slice.start_le_stop after) ht.isPart.stop_le)
            rw [← hafter.start_eq] at hinner
            exact .some ⟨hbody, hinner, hafter⟩

/-- Recognisers of a level that recognise the same in aligned texts. -/
structure Level.Steady (padded : Prop) (move : Nat → Nat) (level : Level) : Prop where
  conditional? {slice slice' : Slice} (h : Slice.Aligned padded move slice slice') :
    Option.Rel (Follow padded move) (level.conditional? slice) (level.conditional? slice')
  block {slice slice' : Slice} (h : Slice.Aligned padded move slice slice') :
    List.Forall₂ (Aligned padded move) (level.block slice) (level.block slice')

section

variable {below : Option Level} (hbelow : ∀ level ∈ below, Level.Steady padded move level)

include hbelow

theorem body?_aligned (levels : Nat) (relation : Relation)
    (h : Slice.Aligned padded move slice slice') :
    Option.Rel (Follow padded move) (body? levels below relation slice)
      (body? levels below relation slice') := by
  rw [body?_eq, body?_eq]
  refine rel_map (bodyRange?_aligned levels h) ?_
  rintro ⟨body, inner, after⟩ ⟨body', inner', after'⟩ ⟨hbody, hinner, hafter⟩
  refine ⟨aligned_node _ _ _ hbody.start_eq ?_, hafter⟩
  cases below with
  | none => exact .nil
  | some level => exact (hbelow level rfl).block hinner

theorem alternative?_aligned (levels : Nat) (h : Slice.Aligned padded move slice slice') :
    Option.Rel (Follow padded move) (alternative? levels below slice)
      (alternative? levels below slice') := by
  have hchained : Option.Rel (Follow padded move)
      (below.bind fun level => slice.next?.bind level.conditional?)
      (below.bind fun level => slice'.next?.bind level.conditional?) := by
    cases below with
    | none => exact .none
    | some level =>
      rw [Option.bind_some, Option.bind_some]
      exact rel_bind h.next? fun _ _ => (hbelow level rfl).conditional?
  rw [alternative?, alternative?]
  generalize (below.bind fun level => slice.next?.bind level.conditional?) = chained at hchained ⊢
  generalize (below.bind fun level => slice'.next?.bind level.conditional?) = chained'
    at hchained ⊢
  cases hchained with
  | none => exact body?_aligned hbelow levels .alternative h
  | some hc =>
    refine .some ⟨hc.1.relabel fun item item' hi => ?_, hc.2⟩
    exact ⟨hi.kind_eq, rfl, hi.offset_eq, hi.name_eq, hi.wording, hi.unquoted⟩

theorem conditional?_aligned (levels : Nat) (h : Slice.Aligned padded move slice slice') :
    Option.Rel (Follow padded move) (conditional? levels below slice)
      (conditional? levels below slice') := by
  refine rel_bind h.heading? fun heading heading' hh => ?_
  have hcondition := aligned_leaf (show NodeKind.isDeclared .binaryExpression = false from rfl)
    .condition hh.inner
  rw [hh.name.text_eq]
  refine rel_ite Iff.rfl ?_ .none
  have hbody := body?_aligned hbelow levels .consequent hh.after
  simp only
  generalize body? levels below .consequent heading.after = body at hbody ⊢
  generalize body? levels below .consequent heading'.after = body' at hbody ⊢
  cases hbody with
  | none =>
    exact .some ⟨aligned_node _ _ _ h.start_eq (.cons hcondition .nil), hh.after⟩
  | @some found found' hb =>
    obtain ⟨consequent, after⟩ := found
    obtain ⟨consequent', after'⟩ := found'
    obtain ⟨hconsequent, hafter⟩ := hb
    have hother := rel_bind (rel_bind hafter.next? fun _ _ hn => hn.after? "else")
      fun _ _ => alternative?_aligned hbelow levels
    simp only
    generalize (after.next?.bind _).bind _ = other at hother ⊢
    generalize (after'.next?.bind _).bind _ = other' at hother ⊢
    cases hother with
    | none =>
      exact .some ⟨aligned_node _ _ _ h.start_eq (.cons hcondition (.cons hconsequent .nil)),
        hafter⟩
    | some hother =>
      exact .some ⟨aligned_node _ _ _ h.start_eq
        (.cons hcondition (.cons hconsequent (.cons hother.1 .nil))), hother.2⟩

theorem loop_aligned (levels : Nat) (kind : NodeKind) (h : Slice.Aligned padded move slice slice')
    {heading heading' : Heading} (hh : Heading.Aligned padded move heading heading')
    {header header' : List Outline} (hheader : List.Forall₂ (Aligned padded move) header header') :
    Option.Rel (Follow padded move)
      (match body? levels below .body heading.after with
        | some (body, after) =>
          some (.node ⟨kind, .statement, slice.start, none, .absent⟩ (header ++ [body]), after)
        | none => some (.node ⟨kind, .statement, slice.start, none, .absent⟩ header, heading.after))
      (match body? levels below .body heading'.after with
        | some (body, after) =>
          some (.node ⟨kind, .statement, slice'.start, none, .absent⟩ (header' ++ [body]), after)
        | none =>
          some (.node ⟨kind, .statement, slice'.start, none, .absent⟩ header', heading'.after)) := by
  have hbody := body?_aligned hbelow levels .body hh.after
  generalize body? levels below .body heading.after = body at hbody ⊢
  generalize body? levels below .body heading'.after = body' at hbody ⊢
  cases hbody with
  | none => exact .some ⟨aligned_node _ _ _ h.start_eq hheader, hh.after⟩
  | some hb =>
    exact .some ⟨aligned_node _ _ _ h.start_eq (List.rel_append hheader (.cons hb.1 .nil)), hb.2⟩

theorem forLoop?_aligned (levels : Nat) (h : Slice.Aligned padded move slice slice') :
    Option.Rel (Follow padded move) (forLoop? levels below slice) (forLoop? levels below slice') := by
  refine rel_bind h.heading? fun heading heading' hh => ?_
  rw [hh.name.text_eq]
  refine rel_ite Iff.rfl ?_ .none
  have hsplit := hh.inner.split (show CharClass.isBlank 0x3B = false from rfl)
  have hclause (index : Nat) : Slice.Aligned padded move
      ((heading.inner.split 0x3B)[index]?.getD ⟨heading.inner.stop, []⟩)
      ((heading'.inner.split 0x3B)[index]?.getD ⟨heading'.inner.stop, []⟩) := by
    have hrel := rel_getElem? hsplit index
    generalize (heading.inner.split 0x3B)[index]? = clause at hrel ⊢
    generalize (heading'.inner.split 0x3B)[index]? = clause' at hrel ⊢
    cases hrel with
    | none => exact ⟨hh.inner.stop_eq, .nil _⟩
    | some hc => exact hc
  exact loop_aligned hbelow levels .forStatement h hh (.cons (aligned_leaf rfl _ (hclause 0))
    (.cons (aligned_leaf rfl _ (hclause 1)) (.cons (aligned_leaf rfl _ (hclause 2)) .nil)))

theorem whileLoop?_aligned (levels : Nat) (h : Slice.Aligned padded move slice slice') :
    Option.Rel (Follow padded move) (whileLoop? levels below slice)
      (whileLoop? levels below slice') := by
  refine rel_bind h.heading? fun heading heading' hh => ?_
  have hstarts := hh.after.skipBlank.startsWith_eq (c := ';') (by rintro _ (_ | _) <;> rfl)
  refine rel_ite (by rw [hh.name.text_eq, hstarts]) ?_ .none
  exact loop_aligned hbelow levels .whileStatement h hh (.cons (aligned_leaf rfl _ hh.inner) .nil)

variable (hmove : StrictMono move)

include hmove

theorem statement?_aligned (levels : Nat) (h : Slice.Aligned padded move slice slice') :
    Option.Rel (Aligned padded move) (statement? levels below slice)
      (statement? levels below slice') := by
  refine rel_or (rel_map (Declaration.read?_aligned h) fun _ _ =>
    aligned_ofDeclaration .statement) ?_
  refine rel_or (rel_map (conditional?_aligned hbelow levels h) fun _ _ hf => hf.1) ?_
  refine rel_or (rel_map (forLoop?_aligned hbelow levels h) fun _ _ hf => hf.1) ?_
  refine rel_or (rel_map (whileLoop?_aligned hbelow levels h) fun _ _ hf => hf.1) ?_
  exact rel_or (return?_aligned hmove h) (callStatement?_aligned h)

theorem statements_aligned (levels : Nat) (h : Slice.Aligned padded move slice slice') :
    List.Forall₂ (Aligned padded move) (statements levels below slice)
      (statements levels below slice') :=
  h.filterMap_statementStarts .topLevel fun _ _ => statement?_aligned hbelow hmove levels

end

variable (hmove : StrictMono move)

include hmove

theorem level_steady (levels : Nat) : (level levels).Steady padded move := by
  induction levels with
  | zero =>
    have hnone : ∀ level ∈ (none : Option Level), Level.Steady padded move level :=
      fun _ hm => by cases hm
    exact ⟨conditional?_aligned hnone 0, statements_aligned hnone hmove 0⟩
  | succ levels ih =>
    have hbelow : ∀ lower ∈ some (level levels), Level.Steady padded move lower :=
      fun _ hm => by cases hm; exact ih
    exact ⟨conditional?_aligned hbelow _, statements_aligned hbelow hmove _⟩

theorem ofBlock_aligned (h : Slice.Aligned padded move slice slice') :
    List.Forall₂ (Aligned padded move) (ofBlock slice) (ofBlock slice') :=
  (level_steady hmove maxNesting).block h

theorem ofFunction_aligned {function function' : FunctionDefinition}
    (h : FunctionDefinition.Aligned padded move function function') :
    Aligned padded move (ofFunction function) (ofFunction function') := by
  refine .node ⟨rfl, rfl, h.start_eq, congrArg some h.name_eq, .words h.returnType_eq,
    fun _ _ hq => by cases hq⟩ (List.rel_append (forall₂_map h.parameters ?_) (.cons ?_ .nil))
  · intro parameter parameter' hp
    refine .node ⟨rfl, rfl, hp.offset_eq, congrArg some hp.name_eq, ?_, ?_⟩ .nil
    · rw [hp.isEmpty_eq]
      split
      · exact .absent
      · exact .words hp.declaredType_eq
    · intro _ slice hq
      dsimp only at hq
      split at hq <;> cases hq
  · exact aligned_node _ _ _ h.opening_eq (ofBlock_aligned hmove h.body)

theorem children_ofText_aligned (h : Slice.Aligned padded move slice slice') :
    List.Forall₂ (Aligned padded move) (ofText slice).children (ofText slice').children := by
  refine forall₂_mergeSort (List.rel_append
    (forall₂_map (FunctionDefinition.findAll_aligned h) fun _ _ => ofFunction_aligned hmove)
    (forall₂_map (Declaration.findGlobals_aligned hmove h) fun _ _ =>
      aligned_ofDeclaration .item)) ?_
  intro left right left' right' hl hr
  rw [hl.label.offset_eq, hr.label.offset_eq]
  exact decide_eq_decide.2 hmove.le_iff_le.symm

/-- Aligned texts have one outline, but for the places of the items and what they show. -/
theorem ofText_aligned (hzero : move 0 = 0) (h : Slice.Aligned padded move slice slice') :
    Aligned padded move (ofText slice) (ofText slice') :=
  aligned_node _ _ _ hzero.symm (children_ofText_aligned hmove h)

end Outline

end CodeOutline
