import CodeOutline.Proofs.Checked.Statement
import CodeOutline.Proofs.Outline.Opening

namespace CodeOutline.Checked

open Outline (afterStatement? bodyRange? clause)
open Slice (IsPart IsTail IsWhole)

variable {text : String} {slice tail body inner after : Slice} {levels : Nat}
  {relation : Relation} {kind : NodeKind}

/-- What a body holds and what follows it. -/
def bodyParts? (levels : Nat) (body : Slice) : Option (Slice × Slice) :=
  if body.startsWith '{' then some (body.block?.getD (body.drop 1, body.fromOffset body.stop))
  else (afterStatement? levels body).map fun after => (body.toOffset after.start, after)

theorem bodyRange?_eq (levels : Nat) (slice : Slice) :
    bodyRange? levels slice = slice.next?.bind fun body =>
      (bodyParts? levels body).map fun (inner, after) => (body, inner, after) :=
  rfl

theorem bodySpan_eq (h : IsWhole (maskedChars text) slice) (ht : IsTail tail slice)
    (hw : IsWhole (maskedChars text) tail) (hne : tail.start < tail.stop) (levels : Nat) :
    bodySpan levels (upTo text slice.stop) tail.start slice.stop =
      .ok ((bodyParts? levels tail).map fun (inner, after) => (inner.span, after.start)) := by
  obtain ⟨byte, hb, hbrace⟩ := byteAt_brace h ht hne
  rw [bodySpan, hb, ok_bind, bodyParts?]
  simp only [hbrace]
  split
  · next hs =>
    rw [closing?_tail h ht]
    rcases block?_cases tail with ⟨hc, hb⟩ | ⟨close, inner, after, hc, hb, hspan, hnext⟩
    · have hspan : (tail.drop 1).span = ⟨tail.start + 1, slice.stop⟩ :=
        congrArg (Span.mk _) ((Slice.isTail_drop_one hs).trans ht).stop_eq
      simp only [hc, hb, Option.getD_none, Option.map_some, hspan, ← ht.stop_eq]
      rfl
    · simp only [hc, hb, Option.getD_some, Option.map_some, hspan, hnext]
      rfl
  · rw [statementEnd_eq h ht hw hne, ok_bind, Option.map_map, Option.map_map]
    cases ha : afterStatement? levels tail with
    | none => rfl
    | some after =>
      obtain ⟨hafter, hlt⟩ := Outline.afterStatement?_spec ha hne
      have hstop := hafter.stop_eq
      have hle := Slice.start_le_stop after
      have hspan := span_toOffset (Nat.le_of_lt hlt) (hstop ▸ hle)
      simp only [Option.map_some, Function.comp_apply, hspan, pure_eq_ok]

theorem isWhole_bodyParts? {chars : List Char} (h : IsWhole chars tail)
    (hne : tail.start < tail.stop) (hp : bodyParts? levels tail = some (inner, after)) :
    IsWhole chars inner ∧ IsWhole chars after := by
  rw [bodyParts?] at hp
  split at hp
  · next hs =>
    cases hb : tail.block? with
    | none =>
      rw [hb] at hp
      cases hp
      exact ⟨h.drop_one (by decide) hs, h.fromStop⟩
    | some found =>
      rw [hb] at hp
      cases hp
      exact h.block? hb
  · obtain ⟨rest, ha, he⟩ := Option.map_eq_some_iff.1 hp
    cases he
    have hafter := isWhole_afterStatement? h ha
    exact ⟨h.toOffset (Outline.afterStatement?_spec ha hne).1 hafter.start, hafter⟩

theorem isWhole_bodyRange? {chars : List Char} (h : IsWhole chars slice)
    (hr : bodyRange? levels slice = some (body, inner, after)) :
    IsWhole chars body ∧ IsWhole chars inner ∧ IsWhole chars after := by
  obtain ⟨hn, _⟩ := Outline.bodyRange?_spec hr
  rw [bodyRange?_eq, hn, Option.bind_some, Option.map_eq_some_iff] at hr
  obtain ⟨⟨inner', after'⟩, hp, he⟩ := hr
  cases he
  obtain ⟨_, _, hne⟩ := Slice.next?_spec hn
  exact ⟨h.next? hn, isWhole_bodyParts? (h.next? hn) hne hp⟩

theorem isWhole_body? {below : Option Outline.Level} {outline : Outline}
    (h : IsWhole (maskedChars text) slice)
    (hb : Outline.body? levels below relation slice = some (outline, after)) :
    IsWhole (maskedChars text) after ∧ IsTail after slice := by
  rw [Outline.body?_eq, Option.map_eq_some_iff] at hb
  obtain ⟨⟨body, inner, rest⟩, hr, he⟩ := hb
  cases he
  exact ⟨(isWhole_bodyRange? h hr).2.2, (Outline.isPart_of_bodyRange? hr).2.1⟩

theorem isWhole_clause {chars : List Char} (h : IsWhole chars inner) (index : Nat) :
    IsWhole chars (clause inner index) := by
  rw [clause]
  cases hc : (inner.split 0x3B)[index]? with
  | none =>
    have hend : inner.fromOffset inner.stop = ⟨inner.stop, []⟩ := by
      rw [Slice.fromOffset, List.drop_of_length_le (by rw [Slice.stop]; omega)]
    exact hend ▸ h.fromStop
  | some piece => exact h.split (by decide) (List.mem_of_getElem? hc)

theorem span_clause (inner : Slice) (index : Nat) :
    (((inner.split 0x3B).map Slice.span)[index]?.getD ⟨inner.stop, inner.stop⟩) =
      (clause inner index).span := by
  rw [clause, List.getElem?_map]
  cases (inner.split 0x3B)[index]? <;> rfl

/-- A statement as it is shown, and where what follows it begins. -/
def placed (text : String) (found : Outline × Slice) : Node × Nat :=
  (described text found.1, found.2.start)

/-- Recognisers that find without fault what those of a level of the outline find. -/
structure Agrees (text : String) (level : Outline.Level) (checked : Level) : Prop where
  conditional {slice : Slice} (h : IsWhole (maskedChars text) slice) :
    checked.conditional slice.start slice.stop =
      .ok ((level.conditional? slice).map (placed text))
  block {slice : Slice} (h : IsWhole (maskedChars text) slice) :
    checked.block slice.span = .ok ((level.block slice).map (described text))

theorem relabel_described (outline : Outline) :
    (described text outline).relabel (fun label => { label with relation := .alternative }) =
      described text (outline.relabel fun item => { item with relation := .alternative }) := by
  cases outline
  simp only [described, Tree.relabel, Tree.map_node]
  rfl

section

variable {below : Option Outline.Level} {below' : Option Level}
  (hbelow : Option.Rel (Agrees text) below below')

include hbelow

theorem block_eq (h : IsWhole (maskedChars text) inner) :
    below'.elim (.ok []) (·.block inner.span) =
      .ok ((below.elim [] (·.block inner)).map (described text)) := by
  cases hbelow with
  | none => rfl
  | some hlevel => exact hlevel.block h

theorem body_eq (levels : Nat) (relation : Relation) (h : IsWhole (maskedChars text) slice) :
    Checked.body (Source.ofString text) levels below' relation slice.start slice.stop =
      .ok ((Outline.body? levels below relation slice).map (placed text)) := by
  rw [Checked.body, cut_upTo h, ok_bind, skipFrom_tail h (IsTail.refl slice), Outline.body?_eq,
    bodyRange?_eq]
  cases hn : slice.next? with
  | none => rfl
  | some body =>
    obtain ⟨_, ht, hne⟩ := Slice.next?_spec hn
    simp only [Option.map_some, Option.bind_some, bodySpan_eq h ht (h.next? hn) hne, ok_bind]
    cases hp : bodyParts? levels body with
    | none => rfl
    | some found =>
      obtain ⟨inner, after⟩ := found
      obtain ⟨hinner, _⟩ := isWhole_bodyParts? (h.next? hn) hne hp
      simp only [Option.map_some, block_eq hbelow hinner, ok_bind, node_eq, pure_eq_ok, placed,
        described, Tree.map_node]
      rfl

theorem chained_eq (h : IsWhole (maskedChars text) slice) :
    chained below' (upTo text slice.stop) slice.start slice.stop =
      .ok ((below.bind fun level => slice.next?.bind level.conditional?).map (placed text)) := by
  rw [chained.eq_def, skipFrom_tail h (IsTail.refl slice)]
  cases hbelow with
  | none => rfl
  | some hlevel =>
    cases hn : slice.next? with
    | none => rfl
    | some next =>
      have hc := hlevel.conditional (h.next? hn)
      rw [(Slice.next?_spec hn).2.1.stop_eq] at hc
      exact hc

theorem alternative_eq (levels : Nat) (h : IsWhole (maskedChars text) slice) :
    alternative (Source.ofString text) levels below' slice.start slice.stop =
      .ok ((Outline.alternative? levels below slice).map (placed text)) := by
  rw [alternative, cut_upTo h, ok_bind, chained_eq hbelow h, ok_bind, Outline.alternative?]
  cases below.bind fun level => slice.next?.bind level.conditional? with
  | none => exact body_eq hbelow levels .alternative h
  | some found => simp only [Option.map_some, placed, relabel_described, pure_eq_ok]

theorem branch_eq (levels : Nat) (h : IsWhole (maskedChars text) slice) (ht : IsTail after slice)
    (hw : IsWhole (maskedChars text) after) :
    branch (Source.ofString text) levels below' (upTo text slice.stop) after.start slice.stop =
      .ok (((after.next?.bind (Slice.after? "else")).bind
        (Outline.alternative? levels below)).map (placed text)) := by
  rw [branch, afterElse_eq h ht hw, ok_bind]
  cases he : after.next?.bind (Slice.after? "else") with
  | none => rfl
  | some other =>
    obtain ⟨next, hn, hp⟩ := Option.bind_eq_some_iff.1 he
    have hother := (Slice.after?_spec hp).1.trans ((Slice.next?_spec hn).2.1.trans ht)
    have halternative := alternative_eq hbelow levels ((hw.next? hn).after? hp)
    rw [hother.stop_eq] at halternative
    exact halternative

theorem conditional_eq (levels : Nat) (h : IsWhole (maskedChars text) slice) :
    conditional (Source.ofString text) levels below' slice.start slice.stop =
      .ok ((Outline.conditional? levels below slice).map (placed text)) := by
  have hself := IsTail.refl slice
  rw [conditional, window_eq h, ok_bind, Outline.conditional?]
  rcases heading?_cases h hself with ⟨hc, hh⟩ | ⟨opening, close, heading, hc, hh, hspan, hnext⟩
  · simp only [hc, hh]
    rfl
  · obtain ⟨_, _, hafter, _⟩ := Slice.heading?_spec hh
    obtain ⟨hinner, hwhole⟩ := h.heading? hh
    have hleaf := leaf_eq .binaryExpression .condition hinner
    have hbody := body_eq hbelow levels .consequent hwhole
    rw [hnext, hafter.stop_eq] at hbody
    simp only [hc, hh, Option.bind_some, ← hspan]
    split
    · simp only [hleaf, hbody, ok_bind]
      cases hb : Outline.body? levels below .consequent heading.after with
      | none =>
        simp only [Option.map_none, Option.map_some, node_eq, ok_bind, pure_eq_ok, placed, hnext,
          described, Tree.map_node]
        rfl
      | some found =>
        obtain ⟨consequent, after⟩ := found
        obtain ⟨hend, htail⟩ := isWhole_body? hwhole hb
        simp only [Option.map_some, placed, branch_eq hbelow levels h (htail.trans hafter) hend,
          ok_bind]
        cases (after.next?.bind (Slice.after? "else")).bind (Outline.alternative? levels below) with
        | none =>
          simp only [Option.map_none, Option.map_some, node_eq, ok_bind, pure_eq_ok, placed,
            described, Tree.map_node]
          rfl
        | some found =>
          simp only [Option.map_some, node_eq, ok_bind, pure_eq_ok, placed, described,
            Tree.map_node]
          rfl
    · rfl

theorem loop_eq (levels : Nat) (kind : NodeKind) (start : Nat) {close : Nat}
    (h : IsWhole (maskedChars text) slice) (hs : slice.start = close + 1) (header : List Outline) :
    loop (Source.ofString text) levels below' kind start close slice.stop
        (header.map (described text)) =
      .ok (((Outline.body? levels below .body slice).elim
          (Tree.node ⟨kind, .statement, start, none, .absent⟩ header, slice)
          fun (body, after) =>
            (Tree.node ⟨kind, .statement, start, none, .absent⟩ (header ++ [body]), after)) |>
        placed text |> some) := by
  rw [loop, ← hs, body_eq hbelow levels .body h, ok_bind]
  cases Outline.body? levels below .body slice with
  | none =>
    simp only [Option.map_none, Option.elim_none, node_eq, ok_bind, pure_eq_ok, placed, described,
      Tree.map_node]
    rfl
  | some found =>
    simp only [Option.map_some, Option.elim_some, node_eq, ok_bind, pure_eq_ok, placed, described,
      Tree.map_node, List.map_append]
    rfl

theorem forLoop_eq (levels : Nat) (h : IsWhole (maskedChars text) slice) :
    forLoop (Source.ofString text) levels below' slice.start slice.stop =
      .ok ((Outline.forLoop? levels below slice).map (placed text)) := by
  have hself := IsTail.refl slice
  rw [forLoop, window_eq h, ok_bind, Outline.forLoop?]
  rcases heading?_cases h hself with ⟨hc, hh⟩ | ⟨opening, close, heading, hc, hh, hspan, hnext⟩
  · simp only [hc, hh]
    rfl
  · obtain ⟨_, hpart, hafter, _⟩ := Slice.heading?_spec hh
    obtain ⟨hinner, hwhole⟩ := h.heading? hh
    have hclauses : split (upTo text slice.stop) heading.inner.span 0x3B =
        .ok ((heading.inner.split 0x3B).map Slice.span) :=
      split_eq rfl (hpart.trans (isTail_upTo h).isPart)
    have hend : heading.inner.stop = close := congrArg Span.stop hspan
    have hleaf (kind : NodeKind) (relation : Relation) (index : Nat) :
        leaf (Source.ofString text) kind relation
            (((heading.inner.split 0x3B).map Slice.span)[index]?.getD ⟨close, close⟩) =
          .ok (described text (Outline.leaf kind relation (clause heading.inner index))) := by
      rw [← hend, span_clause]
      exact leaf_eq kind relation (isWhole_clause hinner index)
    simp only [hc, hh, Option.bind_some, ← hspan, hclauses, ok_bind]
    split
    · have hloop := loop_eq hbelow levels .forStatement slice.start hwhole hnext
        [Outline.leaf .initialization .init (clause heading.inner 0),
          Outline.leaf .test .test (clause heading.inner 1),
          Outline.leaf .update .update (clause heading.inner 2)]
      rw [hafter.stop_eq] at hloop
      simp only [hleaf, ok_bind]
      refine hloop.trans ?_
      cases Outline.body? levels below .body heading.after <;> rfl
    · rfl

theorem whileLoop_eq (levels : Nat) (h : IsWhole (maskedChars text) slice) :
    whileLoop (Source.ofString text) levels below' slice.start slice.stop =
      .ok ((Outline.whileLoop? levels below slice).map (placed text)) := by
  have hself := IsTail.refl slice
  rw [whileLoop, window_eq h, ok_bind, Outline.whileLoop?]
  rcases heading?_cases h hself with ⟨hc, hh⟩ | ⟨opening, close, heading, hc, hh, hspan, hnext⟩
  · simp only [hc, hh]
    rfl
  · obtain ⟨_, _, hafter, _⟩ := Slice.heading?_spec hh
    obtain ⟨hinner, hwhole⟩ := h.heading? hh
    have hleaf := leaf_eq .test .test hinner
    have hexpect := expect_tail h hafter ';'
    rw [hnext] at hexpect
    have hbyte : (0x3B : UInt8) = ';'.val.toUInt8 := rfl
    simp only [hc, hh, Option.bind_some, ← hspan, hleaf]
    by_cases hk : heading.name.text = "while"
    · rw [if_pos hk, hbyte, hexpect, ok_bind]
      by_cases hs : heading.after.skipBlank.startsWith ';'
      · rw [if_pos hs, if_neg (by simp [hs])]
        rfl
      · have hloop := loop_eq hbelow levels .whileStatement slice.start hwhole hnext
          [Outline.leaf .test .test heading.inner]
        rw [hafter.stop_eq] at hloop
        rw [if_neg hs, if_pos ⟨hk, by simp [hs]⟩]
        simp only [ok_bind]
        refine hloop.trans ?_
        cases Outline.body? levels below .body heading.after <;> rfl
    · rw [if_neg hk, if_neg fun hboth => hk hboth.1]
      rfl

omit hbelow in
theorem callStatement_eq (h : IsWhole (maskedChars text) slice) :
    callStatement (Source.ofString text) slice.start slice.stop =
      .ok ((Outline.callStatement? slice).map (described text)) := by
  have hself := IsTail.refl slice
  rw [callStatement, window_eq h, ok_bind, Outline.callStatement?]
  rcases heading?_cases h hself with ⟨hc, hh⟩ | ⟨opening, close, heading, hc, hh, hspan, hnext⟩
  · simp only [hc, hh]
    rfl
  · obtain ⟨_, _, hafter, hstart, _⟩ := Slice.heading?_spec hh
    have hcall : callNode (Source.ofString text) .statement heading.name.text heading.name.start
        heading.inner.span = .ok (described text (Outline.ofCall .statement heading.name
          heading.inner)) := callNode_eq (h.heading? hh).1 heading.name
    have hexpect := expect_tail h hafter ';'
    rw [hnext] at hexpect
    have hbyte : (0x3B : UInt8) = ';'.val.toUInt8 := rfl
    simp only [hc, hh, Option.bind_some, ← hspan, ← hstart]
    split
    · rfl
    · rw [hbyte, hexpect, ok_bind]
      by_cases hs : heading.after.skipBlank.startsWith ';'
      · rw [if_pos hs, if_pos hs]
        simp only [hcall, ok_bind]
        rfl
      · rw [if_neg hs, if_neg hs]
        rfl

theorem statement_eq (levels : Nat) (h : IsWhole (maskedChars text) slice) :
    statement (Source.ofString text) levels below' slice.start slice.stop =
      .ok ((Outline.statement? levels below slice).map (described text)) := by
  have hdeclared : ((Declaration.read? slice).map Declaration.shape).mapM
      (declarationNode (Source.ofString text) .statement) =
        .ok (((Declaration.read? slice).map (Outline.ofDeclaration .statement)).map
          (described text)) := by
    cases hd : Declaration.read? slice with
    | none => rfl
    | some declaration =>
      simp only [Option.map_some, Option.mapM_some, declarationNode_eq (isWhole_initializer h hd)]
      rfl
  have hfst (found : Option (Outline × Slice)) :
      (found.map (placed text)).map (·.1) = (found.map (·.1)).map (described text) := by
    cases found <;> rfl
  simp only [statement, declaration_eq h, hdeclared, conditional_eq hbelow levels h,
    forLoop_eq hbelow levels h, whileLoop_eq hbelow levels h, returnStatement_eq h,
    callStatement_eq h, ok_bind, pure_eq_ok, Outline.statement?, Option.map_or, hfst]

theorem statements_eq (levels : Nat) (h : IsWhole (maskedChars text) slice) :
    statements (Source.ofString text) levels below' slice.span =
      .ok ((Outline.statements levels below slice).map (described text)) := by
  have hread : ∀ head ∈ slice.heads .topLevel,
      statement (Source.ofString text) levels below' head.start slice.span.stop =
        .ok ((Outline.statement? levels below head).map (described text)) := fun head hm => by
    have hstatement := statement_eq hbelow levels (h.heads hm)
    rwa [(Slice.isTail_of_mem_heads hm).stop_eq] at hstatement
  rw [statements, cut_view h, ok_bind, ← Slice.map_start_heads, mapM_map_ok hread, ok_bind,
    reduceOption_map, Outline.statements, Slice.filterMap_statementStarts, List.map_filterMap]
  rfl

end

/-- Every level of the recognisers agrees with the level of the outline. -/
theorem level_agrees (text : String) (levels : Nat) :
    Agrees text (Outline.level levels) (level (Source.ofString text) levels) := by
  induction levels with
  | zero => exact ⟨conditional_eq .none 0, statements_eq .none 0⟩
  | succ levels ih =>
    exact ⟨conditional_eq (.some ih) (levels + 1), statements_eq (.some ih) (levels + 1)⟩

end CodeOutline.Checked
