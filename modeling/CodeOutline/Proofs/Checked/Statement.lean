import CodeOutline.Proofs.Checked.Shape
import CodeOutline.Proofs.Outline.Aligned

namespace CodeOutline

namespace Checked

open Outline (findCall? isCallWord)
open Slice (IsPart IsTail IsWhole)

variable {text : String} {slice tail inner : Slice} {relation : Relation} {kind : NodeKind}

/-- A node as it is shown. -/
abbrev described (text : String) : Outline → Node :=
  Tree.map (Source.ofString text).describe

theorem node_eq (offset : Nat) (name rawText : Option String) (children : List Node) :
    node (Source.ofString text) kind relation offset name rawText children =
      .ok (.node ⟨kind, relation, name, rawText, (Source.ofString text).locate offset, offset⟩
        children) := by
  rw [node, locate_eq]
  rfl

theorem leaf_eq (kind : NodeKind) (relation : Relation) (h : IsWhole (maskedChars text) slice) :
    leaf (Source.ofString text) kind relation slice.span =
      .ok (described text (Outline.leaf kind relation slice)) := by
  rw [leaf, trim_eq h.isPart, ok_bind, fragment_eq h, ok_bind, node_eq, Outline.leaf, described,
    Tree.map_node]
  rfl

theorem declarationNode_eq {declaration : Declaration}
    (h : ∀ value ∈ declaration.initializer, IsWhole (maskedChars text) value) :
    declarationNode (Source.ofString text) relation declaration.shape =
      .ok (described text (Outline.ofDeclaration relation declaration)) := by
  have hchildren : declaration.shape.initializer.toList.mapM
      (leaf (Source.ofString text) .initializer .initializer) =
        .ok (declaration.initializer.toList.map fun value =>
          described text (Outline.leaf .initializer .initializer value)) := by
    have htoList : declaration.shape.initializer.toList =
        declaration.initializer.toList.map Slice.span := by
      cases hi : declaration.initializer <;> simp [Declaration.shape, hi]
    rw [htoList]
    exact mapM_map_ok fun value hm => leaf_eq _ _ (h value (Option.mem_toList.1 hm))
  rw [declarationNode, hchildren, ok_bind, node_eq, Outline.ofDeclaration, described, Tree.map_node,
    List.map_map]
  rfl

theorem argument_eq (h : IsWhole (maskedChars text) slice) :
    argument (Source.ofString text) slice.span =
      .ok (if slice.trim.isEmpty then none
        else some (described text (Outline.leaf .argument .argument slice))) := by
  rw [argument, trim_eq h.isPart, ok_bind, fragment_eq h, ok_bind]
  cases he : slice.trim.isEmpty with
  | true =>
    rw [Source.fragment?, if_pos he]
    rfl
  | false =>
    have hfragment : (Source.ofString text).fragment? slice =
        some ((Source.ofString text).quote slice.trim) := if_neg (by simp [he])
    simp only [hfragment, node_eq, ok_bind, pure_eq_ok, Outline.leaf, described, Tree.map_node,
      Source.describe, Source.wording]
    rfl

theorem callNode_eq (h : IsWhole (maskedChars text) inner) (name : Slice) :
    callNode (Source.ofString text) relation name.text name.start inner.span =
      .ok (described text (Outline.ofCall relation name inner)) := by
  have hsplit : split (Source.ofString text).view inner.span 0x2C =
      .ok ((inner.split 0x2C).map Slice.span) := split_eq rfl h.isPart
  have harguments : ((inner.split 0x2C).map Slice.span).mapM (argument (Source.ofString text)) =
      .ok ((inner.split 0x2C).map fun piece => if piece.trim.isEmpty then none
        else some (described text (Outline.leaf .argument .argument piece))) :=
    mapM_map_ok fun piece hm => argument_eq (h.split (by decide) hm)
  have hchildren : (inner.split 0x2C).filterMap (fun piece => if piece.trim.isEmpty then none
      else some (described text (Outline.leaf .argument .argument piece))) =
        ((inner.split 0x2C).filter fun piece => !piece.trim.isEmpty).map fun piece =>
          described text (Outline.leaf .argument .argument piece) := by
    rw [← List.filterMap_eq_map, List.filterMap_filter]
    refine List.filterMap_congr fun piece _ => ?_
    cases piece.trim.isEmpty <;> rfl
  rw [callNode, hsplit, ok_bind, harguments, ok_bind, node_eq, reduceOption_map, hchildren,
    Outline.ofCall, described, Tree.map_node, List.map_map]
  rfl

theorem callFrom_eq (h : IsWhole (maskedChars text) slice) {skipped position : Nat}
    {cells : List Cell} (ht : IsTail ⟨position, cells⟩ slice) :
    callFrom (Source.ofString text) (upTo text slice.stop) skipped position cells =
      .ok ((findCall? skipped position cells).map (described text)) := by
  induction cells generalizing skipped position with
  | nil => rfl
  | cons cell rest ih =>
    have hrest := (Slice.isTail_cons position cell rest).trans ht
    cases skipped with
    | succ skipped =>
      rw [callFrom, findCall?]
      exact ih hrest
    | zero =>
      rw [callFrom, findCall?]
      cases ho : (Slice.mk position (cell :: rest)).opening? isCallWord with
      | none =>
        simp only
        exact ih hrest
      | some found =>
        obtain ⟨name, list⟩ := found
        obtain ⟨hlist, _, _, hs⟩ := Slice.opening?_spec ho
        have htail := hlist.trans ht
        simp only [closing?_tail h htail]
        split
        · exact ih hrest
        · rcases block?_cases list with ⟨hc, hb⟩ | ⟨close, inner, after, hc, hb, hspan, _⟩
          · simp only [hc, hb]
            exact ih hrest
          · have hinner := ((h.of_startsWith htail (by decide) hs).block? hb).1
            simp only [hc, hb, ← hspan, callNode_eq hinner, ok_bind, pure_eq_ok, Option.map_some]

theorem findCall_eq (h : IsWhole (maskedChars text) slice) :
    findCall (Source.ofString text) slice.span =
      .ok ((findCall? 0 slice.start slice.cells).map (described text)) := by
  have hcut : cut (upTo text slice.stop) slice.span = .ok slice := by
    have htail := cut_tail h
    rwa [← (isTail_upTo h).stop_eq] at htail
  have hlimit : cut (Source.ofString text).view ⟨0, slice.span.stop⟩ =
      .ok (upTo text slice.stop) := cut_upTo h
  rw [findCall, hlimit, ok_bind, hcut, ok_bind]
  exact callFrom_eq h (IsTail.refl slice)

theorem returnStatement_eq (h : IsWhole (maskedChars text) slice) :
    returnStatement (Source.ofString text) slice.start slice.stop =
      .ok ((Outline.return? slice).map (described text)) := by
  rw [returnStatement, window_eq h, ok_bind, Outline.return?]
  cases ha : slice.after? "return" with
  | none => simp only [ha]; rfl
  | some after =>
    obtain ⟨ht, _⟩ := Slice.after?_spec ha
    obtain ⟨_, hw, _⟩ := Slice.exists_word?_of_after? ha
    have hafter := (h.word? hw).2
    simp only [ha, findFrom_tail h ht, Option.bind_some]
    cases hf : after.find? 0x3B with
    | none => rfl
    | some stop =>
      obtain ⟨hl, hr⟩ := Slice.find?_bounds hf
      have hwhole := (hafter.find? (by decide) hf).1
      have hspan := span_toOffset hl (Nat.le_of_lt hr)
      have hvalue := hwhole.trim
      simp only [← hspan, trim_eq hwhole.isPart, fragment_eq hvalue, findCall_eq hvalue, node_eq,
        ok_bind, pure_eq_ok, Option.map_some, described, Tree.map_node]
      cases findCall? 0 (after.toOffset stop).trim.start (after.toOffset stop).trim.cells <;> rfl

end Checked

namespace Slice.IsWhole

variable {chars : List Char} {slice after : Slice}

theorem after? (h : IsWhole chars slice) {word : String} (ha : slice.after? word = some after) :
    IsWhole chars after := by
  obtain ⟨_, hw, _⟩ := exists_word?_of_after? ha
  exact (h.word? hw).2

theorem heading? (h : IsWhole chars slice) {heading : Heading}
    (hh : slice.heading? = some heading) :
    IsWhole chars heading.inner ∧ IsWhole chars heading.after := by
  rw [Slice.heading?, Option.bind_eq_some_iff] at hh
  obtain ⟨⟨name, list⟩, ho, hh⟩ := hh
  obtain ⟨⟨inner, after⟩, hb, rfl⟩ := Option.map_eq_some_iff.1 hh
  exact (h.opening? ho).2.block? hb

theorem pastSemicolon? (h : IsWhole chars slice) (hp : slice.pastSemicolon? = some after) :
    IsWhole chars after := by
  rw [Slice.pastSemicolon?, Option.map_eq_some_iff] at hp
  obtain ⟨stop, hf, rfl⟩ := hp
  exact (h.find? (by decide) hf).2

end Slice.IsWhole

namespace Checked

open Outline (afterStatement? bodyRange?)
open Slice (IsPart IsTail IsWhole)

variable {text : String} {slice tail inner after : Slice} {relation : Relation} {kind : NodeKind}

theorem isWhole_alternative {chars : List Char} (h : IsWhole chars slice)
    (he : slice.next?.bind (Slice.after? "else") = some after) : IsWhole chars after := by
  obtain ⟨word, hw, ha⟩ := Option.bind_eq_some_iff.1 he
  exact (h.next? hw).after? ha

theorem isWhole_passes {chars : List Char} (h : IsWhole chars slice)
    (ha : Outline.Passes slice after) : IsWhole chars after := by
  induction ha with
  | block _ hblock => exact (h.block? hblock).2
  | unclosed => exact h.fromStop
  | simple ha => exact h.pastSemicolon? ha
  | headed hh _ hn _ ih => exact ih ((h.heading? hh).2.next? hn)
  | branched hh _ hn _ he ho _ ih ih' =>
    have hmiddle := ih ((h.heading? hh).2.next? hn)
    exact ih' ((isWhole_alternative hmiddle he).next? ho)

theorem isWhole_afterStatement? {chars : List Char} {levels : Nat} (h : IsWhole chars slice)
    (ha : afterStatement? levels slice = some after) : IsWhole chars after :=
  isWhole_passes h (Outline.passes_of_afterStatement? ha)

theorem heading?_cases (h : IsWhole (maskedChars text) slice) (ht : IsTail tail slice) :
    (heading? (upTo text slice.stop) tail = none ∧ tail.heading? = none) ∨
      ∃ opening close heading,
        heading? (upTo text slice.stop) tail = some (heading.name, opening, close) ∧
        tail.heading? = some heading ∧ heading.inner.span = ⟨opening + 1, close⟩ ∧
        heading.after.start = close + 1 := by
  rw [heading?, Slice.heading?]
  cases ho : tail.opening? CharClass.isWord with
  | none => exact .inl ⟨rfl, rfl⟩
  | some found =>
    obtain ⟨name, list⟩ := found
    have htail := (Slice.opening?_spec ho).1.trans ht
    simp only [Option.bind_some, closing?_tail h htail]
    rcases block?_cases list with ⟨hc, hb⟩ | ⟨close, inner, after, hc, hb, hspan, hnext⟩
    · exact .inl (by rw [hc, hb]; exact ⟨rfl, rfl⟩)
    · exact .inr ⟨list.start, close, ⟨name, inner, after⟩, by rw [hc]; rfl, by rw [hb]; rfl,
        hspan, hnext⟩

theorem afterElse_eq (h : IsWhole (maskedChars text) slice) (ht : IsTail tail slice)
    (hw : IsWhole (maskedChars text) tail) :
    afterElse (upTo text slice.stop) tail.start =
      .ok ((tail.next?.bind (Slice.after? "else")).map Slice.start) := by
  rw [afterElse, skipFrom_tail h ht]
  cases hn : tail.next? with
  | none => rfl
  | some next =>
    have htail := (Slice.next?_spec hn).2.1.trans ht
    have hcut := cut_tail (hw.next? hn)
    rw [htail.stop_eq] at hcut
    simp only [Option.map_some, Option.bind_some, hcut, ok_bind, pure_eq_ok]

theorem afterBrace_eq (h : IsWhole (maskedChars text) slice) (ht : IsTail tail slice) :
    some (((closing? (upTo text slice.stop) tail.start).map (· + 1)).getD slice.stop) =
      (match tail.block? with
        | some (_, after) => some after
        | none => some (tail.fromOffset tail.stop)).map Slice.start := by
  rw [closing?_tail h ht]
  rcases block?_cases tail with ⟨hc, hb⟩ | ⟨close, inner, after, hc, hb, _, hnext⟩
  · rw [hc, hb, ← ht.stop_eq]
    rfl
  · rw [hc, hb]
    exact congrArg some hnext.symm

theorem pastSemicolon?_eq (h : IsWhole (maskedChars text) slice) (ht : IsTail tail slice) :
    (findFrom (upTo text slice.stop) tail.start slice.stop 0x3B).map (· + 1) =
      tail.pastSemicolon?.map Slice.start := by
  rw [findFrom_tail h ht, Slice.pastSemicolon?, Option.map_map]
  rfl

theorem skipFrom_else (h : IsWhole (maskedChars text) slice) (ht : IsTail tail slice) :
    (((tail.next?.bind (Slice.after? "else")).map Slice.start).bind
        (skipFrom (upTo text slice.stop))) =
      ((tail.next?.bind (Slice.after? "else")).bind Slice.next?).map Slice.start := by
  cases he : tail.next?.bind (Slice.after? "else") with
  | none => rfl
  | some past =>
    obtain ⟨next, hn, hp⟩ := Option.bind_eq_some_iff.1 he
    have hpast := (Slice.after?_spec hp).1.trans ((Slice.next?_spec hn).2.1.trans ht)
    simp only [Option.map_some, Option.bind_some, skipFrom_tail h hpast]

theorem byteAt_brace (h : IsWhole (maskedChars text) slice) (ht : IsTail tail slice)
    (hne : tail.start < tail.stop) :
    ∃ byte, byteAt (upTo text slice.stop) tail.start = .ok byte ∧
      (byte = 0x7B ↔ tail.startsWith '{') := by
  have hcells : tail.cells ≠ [] := by
    intro hc
    rw [Slice.stop, hc] at hne
    exact Nat.lt_irrefl _ hne
  exact byteAt_startsWith (c := '{') rfl (ht.trans (isTail_upTo h)) hcells

theorem statementEnd_eq (h : IsWhole (maskedChars text) slice) (ht : IsTail tail slice)
    (hw : IsWhole (maskedChars text) tail) (hne : tail.start < tail.stop) (levels : Nat) :
    statementEnd (upTo text slice.stop) slice.stop levels tail.start =
      .ok ((afterStatement? levels tail).map Slice.start) := by
  induction levels generalizing tail with
  | zero =>
    obtain ⟨byte, hb, hbrace⟩ := byteAt_brace h ht hne
    have hcut := cut_tail hw
    rw [ht.stop_eq] at hcut
    rw [statementEnd, afterStatement?]
    simp only [hb, hcut, ok_bind, hbrace, pure_eq_ok, pastSemicolon?_eq h ht]
    split
    · exact congrArg Except.ok (afterBrace_eq h ht)
    · rfl
  | succ levels ih =>
    obtain ⟨byte, hb, hbrace⟩ := byteAt_brace h ht hne
    have hcut := cut_tail hw
    rw [ht.stop_eq] at hcut
    rw [statementEnd, afterStatement?]
    simp only [hb, hcut, ok_bind, hbrace, pure_eq_ok, pastSemicolon?_eq h ht]
    split
    · exact congrArg Except.ok (afterBrace_eq h ht)
    · rcases heading?_cases h ht with ⟨hc, hh⟩ | ⟨opening, close, heading, hc, hh, _, hnext⟩
      · simp only [hc, hh]
      · obtain ⟨_, _, hafter, _⟩ := Slice.heading?_spec hh
        have hwhole := (hw.heading? hh).2
        simp only [hc, hh, ← hnext, skipFrom_tail h (hafter.trans ht)]
        split
        · cases hn : heading.after.next? with
          | none => simp only [Option.map_none, Option.bind_none]
          | some body =>
            obtain ⟨_, hbody, hlt⟩ := Slice.next?_spec hn
            have hrest := hbody.trans (hafter.trans ht)
            simp only [Option.map_some, Option.bind_some,
              ih hrest (hwhole.next? hn) hlt, ok_bind]
            cases ha : afterStatement? levels body with
            | none => simp only [Option.map_none, Option.bind_none]
            | some after =>
              have htail := (Outline.afterStatement?_spec ha hlt).1.trans hrest
              have hend := isWhole_afterStatement? (hwhole.next? hn) ha
              simp only [Option.map_some, Option.bind_some]
              split
              · simp only [afterElse_eq h htail hend, ok_bind, skipFrom_else h htail]
                cases ho : (after.next?.bind (Slice.after? "else")).bind Slice.next? with
                | none => rfl
                | some other =>
                  obtain ⟨past, he, hn⟩ := Option.bind_eq_some_iff.1 ho
                  obtain ⟨_, hother, hlt⟩ := Slice.next?_spec hn
                  have hpast := (Outline.isTail_of_else he).trans htail
                  exact ih (hother.trans hpast) ((isWhole_alternative hend he).next? hn) hlt
              · rfl
        · rfl

end Checked

end CodeOutline
