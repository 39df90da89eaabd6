import CodeOutline.Proofs.Delimiter.Enclosed
import CodeOutline.Proofs.Outline.Opening
import CodeOutline.Proofs.Shape.Start
import Mathlib.Data.List.TakeWhile

namespace CodeOutline

open Slice (IsPart IsTail)

namespace Slice

open Delimiter

/-- A text whose brackets are paired and are those of its characters. -/
structure IsPaired (slice : Slice) : Prop where
  faithful : ∀ cell ∈ slice.cells, cell.IsFaithful
  nested : IsNested slice.cells

variable {slice tail whole name inner after next : Slice} {word : String} {opening : Cell}
  {rest : List Cell} {closer : UInt8}

theorem IsPaired.of_follows (h : IsPaired slice) (ht : Follows tail slice) : IsPaired tail :=
  ⟨fun cell hm => h.faithful cell (ht.isTail.isPart.subset hm), ht.isNested h.nested⟩

theorem IsPaired.of_isEnclosed (h : IsPaired slice) (he : IsEnclosed inner slice) :
    IsPaired inner :=
  ⟨fun cell hm => h.faithful cell (he.isPart.subset hm), he.isNested⟩

theorem continues_drop {count : Nat} (hle : count ≤ slice.cells.length)
    (h : ∀ cell ∈ slice.cells.take count, isInert cell.byte ∧ cell.byte ≠ 0x3B) :
    Continues (slice.drop count) slice := by
  apply continues_of_inert (isTail_drop hle)
  rw [drop, toOffset, Nat.add_sub_cancel_left]
  exact h

theorem continues_run {test : Cell → Bool}
    (h : ∀ cell ∈ slice.cells, test cell → isInert cell.byte ∧ cell.byte ≠ 0x3B) :
    Continues (slice.drop (slice.run test)) slice := by
  apply continues_drop (length_takeWhile_le ..)
  intro cell hm
  rw [← List.prefix_iff_eq_take.1 (List.takeWhile_prefix test)] at hm
  exact h cell ((List.takeWhile_prefix test).subset hm) (List.mem_takeWhile_imp hm)

theorem continues_skipBlank (slice : Slice) : Continues slice.skipBlank slice :=
  continues_run fun _ _ => isInert_of_blank

theorem IsPaired.continues_skipSpace (h : IsPaired slice) : Continues slice.skipSpace slice := by
  apply continues_run
  intro cell hm hs
  apply Declarator.isInert_of_within (h.faithful cell hm)
  exact Declarator.within_phrase_of_separator
    (Cell.within_mono (fun _ hc => Bool.or_eq_true_iff.2 (.inl hc)) hs)

theorem IsPaired.isInert_word? (h : IsPaired slice)
    (hw : slice.word? CharClass.isWord = some (name, after)) :
    ∀ cell ∈ name.cells, isInert cell.byte ∧ cell.byte ≠ 0x3B := by
  obtain ⟨first, word, rest, hc, rfl, rfl, hb, hword, _⟩ := word?_append hw
  intro cell hm
  refine Declarator.isInert_of_within (h.faithful cell ?_) ?_
  · rw [hc]
    exact List.mem_append_left rest hm
  · rcases List.mem_cons.1 hm with rfl | hm
    · exact Declarator.within_phrase_of_begins hb
    · exact Declarator.within_phrase_of_word (hword cell hm)

theorem IsPaired.continues_word? (h : IsPaired slice)
    (hw : slice.word? CharClass.isWord = some (name, after)) : Continues after slice := by
  have hinert := h.isInert_word? hw
  obtain ⟨first, word, rest, hc, rfl, rfl, _⟩ := word?_append hw
  exact ⟨first :: word, hc, rfl, isQuiet_of_inert hinert⟩

theorem exists_block? (start : Nat) (hn : IsNested (opening :: rest))
    (hc : closerOf opening.byte = some closer) : ∃ left closing right,
      (Slice.mk start (opening :: rest)).block? =
        some (⟨start + 1, left⟩, ⟨start + 1 + left.length + 1, right⟩) ∧
      rest = left ++ closing :: right ∧ closing.byte = closer ∧ IsNested left := by
  obtain ⟨left, closing, right, rfl, hl, rfl, _⟩ := hn.exists_closing hc
  exact ⟨left, closing, right, block?_nested hc hl, rfl, rfl, hl⟩

theorem IsPaired.continues_parens (h : IsPaired slice) (hp : slice.startsWith '(')
    (hb : slice.block? = some (inner, after)) : Continues after slice := by
  obtain ⟨start, cells⟩ := slice
  cases cells with
  | nil => cases hb
  | cons opening rest =>
    have hbyte : opening.byte = 0x28 := of_decide_eq_true hp
    have hc : closerOf opening.byte = some 0x29 := by rw [hbyte]; rfl
    obtain ⟨left, closing, right, hblock, rfl, hclosing, hl⟩ := exists_block? start h.nested hc
    rw [hblock] at hb
    cases hb
    refine ⟨opening :: (left ++ [closing]), ?_, ?_, isQuiet_parens hbyte hclosing hl⟩
    · simp only [List.cons_append, List.append_assoc, List.nil_append]
    · simp only [List.length_cons, List.length_append, List.length_nil]
      omega

/-- A tail right behind the end of a statement. -/
def Ends (tail slice : Slice) : Prop :=
  ∃ before last, slice.cells = before ++ tail.cells ∧ tail.start = slice.start + before.length ∧
    IsNested before ∧ before.getLast? = some last ∧ (last.byte = 0x3B ∨ last.byte = 0x7D)

theorem Ends.follows (h : Ends tail slice) : Follows tail slice := by
  obtain ⟨before, _, hc, hs, hn, _⟩ := h
  exact ⟨before, hc, hs, hn⟩

theorem Ends.of_follows (h : Ends tail slice) (h' : Follows slice whole) : Ends tail whole := by
  obtain ⟨before, last, hc, hs, hn, hl, hb⟩ := h
  obtain ⟨before', hc', hs', hn'⟩ := h'
  refine ⟨before' ++ before, last, by rw [hc', hc, List.append_assoc], ?_, hn'.append hn, ?_, hb⟩
  · rw [hs, hs', List.length_append, Nat.add_assoc]
  · rw [List.getLast?_append, hl]
    rfl

theorem IsPaired.ends_block (h : IsPaired slice) (hs : slice.startsWith '{') :
    ∃ inner after, slice.block? = some (inner, after) ∧ inner.start = slice.start + 1 ∧
      Ends after slice := by
  obtain ⟨start, cells⟩ := slice
  cases cells with
  | nil => cases hs
  | cons opening rest =>
    have hbyte : opening.byte = 0x7B := of_decide_eq_true hs
    have hc : closerOf opening.byte = some 0x7D := by rw [hbyte]; rfl
    obtain ⟨inside, closing, right, hblock, rfl, hclosing, hn⟩ := exists_block? start h.nested hc
    refine ⟨_, _, hblock, rfl, opening :: (inside ++ [closing]), closing, by simp, ?_,
      hn.block (hc.trans (congrArg some hclosing.symm)),
      List.getLast?_concat (l := opening :: inside), .inr hclosing⟩
    simp only [List.length_cons, List.length_append, List.length_nil]
    omega

/-- Braces at the start of a nested text enclose what stands in them, and a statement ends with
them. -/
theorem IsPaired.exists_braces (h : IsPaired slice) (hb : slice.startsWith '{') :
    ∃ inner after, slice.block? = some (inner, after) ∧ IsEnclosed inner slice ∧
      Follows after slice ∧ ∀ start, Starts false slice start → Starts true after start := by
  obtain ⟨position, cells⟩ := slice
  cases cells with
  | nil => cases hb
  | cons opening rest =>
    have hbyte : opening.byte = 0x7B := of_decide_eq_true hb
    have hc : closerOf opening.byte = some 0x7D := by rw [hbyte]; rfl
    obtain ⟨left, closing, right, hblock, rfl, hclosing, hl⟩ := exists_block? position h.nested hc
    refine ⟨_, _, hblock, ⟨[opening], closing :: right, 1, rfl, rfl, ?_, hl⟩,
      ⟨opening :: (left ++ [closing]), ?_, ?_, hl.block (hc.trans (congrArg some hclosing.symm))⟩,
      fun start hs => ?_⟩
    · exact due_opener hc [] []
    · simp only [List.cons_append, List.append_assoc, List.nil_append]
    · simp only [List.length_cons, List.length_append, List.length_nil]
      omega
    · rw [Starts, startsDue_braces hbyte hclosing hl] at hs
      have hlength : position + 1 + left.length + 1 = position + left.length + 2 := by omega
      rw [Starts, hlength]
      exact hs

theorem Follows.isEnclosed_toOffset (h : Follows tail slice) :
    IsEnclosed (slice.toOffset tail.start) slice := by
  obtain ⟨before, hc, hs, hn⟩ := h
  have ht : slice.toOffset tail.start = ⟨slice.start, before⟩ := by
    rw [hs, toOffset, take, hc, Nat.add_sub_cancel_left, List.take_left]
  rw [ht]
  exact ⟨[], tail.cells, 0, hc, rfl, rfl, hn⟩

theorem IsPaired.continues_heading? {heading : Heading} (h : IsPaired slice)
    (hh : slice.heading? = some heading) : Continues heading.after slice := by
  rw [heading?, Option.bind_eq_some_iff] at hh
  obtain ⟨⟨name, list⟩, ho, hh⟩ := hh
  rw [opening?, Option.bind_eq_some_iff] at ho
  obtain ⟨⟨name', rest⟩, hw, ho⟩ := ho
  have hrest := h.continues_word? hw
  simp only at ho
  split at ho
  · next hp =>
    cases ho
    obtain ⟨⟨inner, after⟩, hb, he⟩ := Option.map_eq_some_iff.1 hh
    cases he
    have hlist := (h.of_follows hrest.follows).continues_skipSpace.trans hrest
    exact ((h.of_follows hlist.follows).continues_parens hp hb).trans hlist
  · cases ho

theorem continues_next? (h : slice.next? = some next) : Continues next slice := by
  obtain ⟨rfl, _⟩ := next?_spec h
  exact continues_skipBlank slice

theorem IsPaired.continues_after? (h : IsPaired slice) (ha : slice.after? word = some after) :
    Continues after slice := by
  obtain ⟨_, hw, _⟩ := exists_word?_of_after? ha
  exact h.continues_word? hw

theorem IsPaired.follows_else (h : IsPaired slice)
    (he : slice.next?.bind (Slice.after? word) = some after) : Follows after slice := by
  obtain ⟨next, hn, ha⟩ := Option.bind_eq_some_iff.1 he
  have hnext := (continues_next? hn).follows
  exact ((h.of_follows hnext).continues_after? ha).follows.trans hnext

theorem IsPaired.ends_pastSemicolon? (h : IsPaired slice) (hp : slice.pastSemicolon? = some after) :
    Ends after slice := by
  obtain ⟨stop, hf, rfl⟩ := Option.map_eq_some_iff.1 hp
  obtain ⟨left, cell, right, hc, rfl, hi, hb, hl⟩ := findFrom_due_spec h.nested hf
  have hcell : ∀ other ∈ [cell], isInert other.byte := by
    intro other hm
    rw [List.mem_singleton.1 hm]
    exact hi
  refine ⟨left ++ [cell], cell, ?_, ?_, IsNested.append hl (isNested_of_inert hcell),
    List.getLast?_concat, .inl hb⟩
  · obtain ⟨start, cells⟩ := slice
    simp only at hc
    subst hc
    have hlength : start + left.length + 1 - start = (left ++ [cell]).length := by
      rw [List.length_append, List.length_singleton]
      omega
    rw [fromOffset, hlength, List.append_cons, List.drop_left]
  · rw [fromOffset, List.length_append, List.length_singleton, Nat.add_assoc]

end Slice

theorem FunctionDefinition.read?_paired {slice : Slice} {function : FunctionDefinition}
    (hp : slice.IsPaired) (h : read? slice = some function) :
    Slice.IsEnclosed function.body slice ∧
      ∀ start, Slice.Starts false slice start → function.body.stop ≤ start := by
  rw [read?, Option.bind_eq_some_iff] at h
  obtain ⟨declarator, hd, h⟩ := h
  have hrest := Slice.continues_of_inert (Declarator.read?_spec hd).2.2.1
    (Declarator.isInert_of_read? hp.faithful hd)
  simp only at h
  split at h
  · next hparen =>
    rw [Option.bind_eq_some_iff] at h
    obtain ⟨⟨entries, after⟩, hb, h⟩ := h
    have hlist := (hp.of_follows hrest.follows).continues_skipSpace.trans hrest
    have hafter := ((hp.of_follows hlist.follows).continues_parens hparen hb).trans hlist
    have hbraced := (Slice.continues_skipBlank after).trans hafter
    simp only at h
    split at h
    · next hbrace =>
      cases h
      obtain ⟨body, rest, hblock, henclosed, _, hstarts⟩ :=
        (hp.of_follows hbraced.follows).exists_braces hbrace
      simp only [hblock]
      refine ⟨henclosed.trans (hbraced.follows.isEnclosed hp.nested), fun start hs => ?_⟩
      have hle := (Slice.block?_spec hblock).2.2.2
      exact Nat.le_trans (Nat.le_of_lt hle) (hstarts start (hbraced.starts hs)).bounds.1
    · cases h
  · cases h

theorem FunctionDefinition.isPaired_body {text head : Slice} {function : FunctionDefinition}
    (hp : text.IsPaired) (hh : head ∈ text.heads .topLevel) (hr : read? head = some function) :
    function.body.IsPaired := by
  have hhead := hp.of_follows (Slice.follows_of_mem_heads hp.nested hh).1
  exact hhead.of_isEnclosed (read?_paired hhead hr).1

namespace Outline

open Slice (IsPaired Follows Ends IsEnclosed)

variable {levels levels' : Nat} {text slice block body inner after last : Slice}

theorem follows_branch {other : Slice} (hp : IsPaired slice) (ht : Follows after slice)
    (he : after.next?.bind (Slice.after? "else") = some other) : Follows other slice :=
  ((hp.of_follows ht).follows_else he).trans ht

theorem continues_body {heading : Heading} (hp : IsPaired slice) (hh : slice.heading? = some heading)
    (hn : heading.after.next? = some body) : Slice.Continues body slice :=
  (Slice.continues_next? hn).trans (hp.continues_heading? hh)

/-- Behind a statement of a nested text there is a semicolon or a closing brace. -/
theorem Passes.ends (h : Passes slice after) (hp : IsPaired slice) : Ends after slice := by
  induction h with
  | block hb hblock =>
    obtain ⟨inner, rest, he, _, hends⟩ := hp.ends_block hb
    cases he.symm.trans hblock
    exact hends
  | unclosed hb hblock =>
    obtain ⟨inner, rest, he, _⟩ := hp.ends_block hb
    cases he.symm.trans hblock
  | simple h => exact hp.ends_pastSemicolon? h
  | headed hh _ hn _ ih =>
    have hbody := (continues_body hp hh hn).follows
    exact (ih (hp.of_follows hbody)).of_follows hbody
  | branched hh _ hn _ he ho _ ih ih' =>
    have hbody := (continues_body hp hh hn).follows
    have hends := (ih (hp.of_follows hbody)).of_follows hbody
    have hpast := follows_branch hp hends.follows he
    have hnext := (Slice.continues_next? ho).follows.trans hpast
    exact (ih' (hp.of_follows hnext)).of_follows hnext

theorem ends_afterStatement? (hp : IsPaired slice) (h : afterStatement? levels slice = some after) :
    Ends after slice :=
  (passes_of_afterStatement? h).ends hp

theorem follows_afterStatement? (hp : IsPaired slice)
    (h : afterStatement? levels slice = some after) : Follows after slice :=
  (ends_afterStatement? hp h).follows

/-- A body of a nested text stands in its braces or outside all brackets. -/
theorem isEnclosed_bodyRange? (hp : IsPaired slice)
    (h : bodyRange? levels slice = some (body, inner, after)) :
    IsEnclosed inner slice ∧ Follows after slice := by
  rw [bodyRange?, Option.bind_eq_some_iff] at h
  obtain ⟨body', hn, h⟩ := h
  obtain ⟨⟨inner', after'⟩, hr, he⟩ := Option.map_eq_some_iff.1 h
  cases he
  have hbody := (Slice.continues_next? hn).follows
  have hpaired := hp.of_follows hbody
  suffices hinner : IsEnclosed inner body ∧ Follows after body from
    ⟨hinner.1.trans (hbody.isEnclosed hp.nested), hinner.2.trans hbody⟩
  split at hr
  · next hb =>
    obtain ⟨inner', rest, hblock, hinner, hrest, _⟩ := hpaired.exists_braces hb
    rw [hblock] at hr
    cases hr
    exact ⟨hinner, hrest⟩
  · obtain ⟨rest, ha, he⟩ := Option.map_eq_some_iff.1 hr
    cases he
    have hafter := follows_afterStatement? hpaired ha
    exact ⟨hafter.isEnclosed_toOffset, hafter⟩

theorem isEnclosed_body {heading : Heading} (hp : IsPaired slice)
    (hh : slice.heading? = some heading)
    (h : bodyRange? levels heading.after = some (body, inner, after)) :
    IsEnclosed inner slice ∧ Follows after slice := by
  have hheading := (hp.continues_heading? hh).follows
  obtain ⟨hinner, hafter⟩ := isEnclosed_bodyRange? (hp.of_follows hheading) h
  exact ⟨hinner.trans (hheading.isEnclosed hp.nested), hafter.trans hheading⟩

theorem Chained.follows (hp : IsPaired slice) (h : Chained levels slice levels' last) :
    Follows last slice := by
  induction h with
  | refl => exact Follows.refl _
  | next hh _ hb he hn _ _ ih =>
    have hother := follows_branch hp (isEnclosed_body hp hh hb).2 he
    have hnext := (Slice.continues_next? hn).follows.trans hother
    exact (ih (hp.of_follows hnext)).trans hnext

theorem Opens.isEnclosed (hp : IsPaired slice) (h : Opens levels slice body inner) :
    IsEnclosed inner slice := by
  cases h with
  | body hh _ hb => exact (isEnclosed_body hp hh hb).1
  | alternative hh _ hb he _ ha =>
    have hother := follows_branch hp (isEnclosed_body hp hh hb).2 he
    exact (isEnclosed_bodyRange? (hp.of_follows hother) ha).1.trans (hother.isEnclosed hp.nested)

theorem Visits.exists_function (hf : ∀ cell ∈ text.cells, cell.IsFaithful)
    (h : Visits text levels block) : ∃ function ∈ FunctionDefinition.findAll text,
      IsPart block function.body ∧ (Delimiter.IsNested function.body.cells →
        IsEnclosed block function.body) := by
  induction h with
  | @function head function hh hr =>
    exact ⟨function, FunctionDefinition.mem_findAll.2 ⟨head, hh, hr⟩, IsPart.refl _, fun hn =>
      (Follows.refl _).isEnclosed hn⟩
  | body hv hh _ hc ho ih =>
    obtain ⟨function, hm, hpart, hinner⟩ := ih
    have htail := Slice.isTail_of_mem_heads hh
    refine ⟨function, hm, ho.isPart.trans ((hc.isTail.trans htail).isPart.trans hpart), fun hn => ?_⟩
    have hblock := hinner hn
    have hpaired : IsPaired _ := ⟨fun cell hc => hf cell (hv.isPart.subset hc), hblock.isNested⟩
    have hhead := (Slice.follows_of_mem_heads hblock.isNested hh).1
    have hlast := (hc.follows (hpaired.of_follows hhead)).trans hhead
    exact (ho.isEnclosed (hpaired.of_follows hlast)).trans
      ((hlast.isEnclosed hblock.isNested).trans hblock)

theorem Visits.isPaired (hp : IsPaired text) (h : Visits text levels block) : IsPaired block := by
  obtain ⟨function, hm, hpart, hinner⟩ := h.exists_function hp.faithful
  obtain ⟨head, hh, hr⟩ := FunctionDefinition.mem_findAll.1 hm
  have hbody := FunctionDefinition.isPaired_body hp hh hr
  exact hbody.of_isEnclosed (hinner hbody.nested)

end Outline

end CodeOutline
