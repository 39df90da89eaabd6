import CodeOutline.Proofs.Delimiter.Found
import CodeOutline.Proofs.Outline.Opening
import CodeOutline.Proofs.Source.Mask

namespace CodeOutline

open Slice (IsPart IsTail)

namespace Cell

/-- Whether a word goes on behind the cell, if it is told whether one does before it. -/
def continuesWord (inWord : Bool) (cell : Cell) : Bool :=
  cell.char?.elim inWord CharClass.isWord

theorem continuesWord_eq_false {cell : Cell} (h : cell.within CharClass.isWord = false)
    (inWord : Bool) : cell.continuesWord inWord = false := by
  rw [continuesWord]
  cases hc : cell.char? with
  | none => rw [within, hc] at h; cases h
  | some c => rw [within, hc] at h; exact h

theorem IsFaithful.not_isWord_of_isBlank {cell : Cell} (hf : cell.IsFaithful) (h : cell.isBlank) :
    cell.within CharClass.isWord = false := by
  obtain ⟨c, hc, hs⟩ := hf.exists_of_isBlank h
  rw [within, hc]
  exact CharClass.not_isWord_of_isAsciiSpace hs

theorem IsFaithful.not_isWord_of_closerOf {cell : Cell} {opener : UInt8} (hf : cell.IsFaithful)
    (h : Delimiter.closerOf opener = some cell.byte) :
    cell.within CharClass.isWord = false := by
  rw [Delimiter.closerOf] at h
  split at h
  · exact hf.not_within (c := '\x7d') (Option.some.inj h).symm (by decide) (by decide)
  · split at h
    · exact hf.not_within (c := ')') (Option.some.inj h).symm (by decide) (by decide)
    · split at h
      · exact hf.not_within (c := ']') (Option.some.inj h).symm (by decide) (by decide)
      · cases h

end Cell

namespace Slice

/-- Whether the slice begins with the heading of a conditional or of a loop. -/
def opensBody (slice : Slice) : Bool :=
  slice.heading?.any fun heading => heading.name.text ∈ ["if", "for", "while"]

/-- How many of the words in the cells are those of such headings. -/
def headingsFrom (inWord : Bool) (position : Nat) : List Cell → Nat
  | [] => 0
  | cell :: rest =>
    (if !inWord && (Slice.mk position (cell :: rest)).opensBody then 1 else 0) +
      headingsFrom (cell.continuesWord inWord) (position + 1) rest

/-- How many headings of conditionals and of loops there are in a slice: whole words before a
parenthesis that is closed. -/
def headings (slice : Slice) : Nat :=
  headingsFrom false slice.start slice.cells

variable {slice next after inner tail whole : Slice} {before cells rest : List Cell} {cell : Cell}
  {position : Nat} {heading : Heading}

theorem headingsFrom_append_le (inWord : Bool) (position : Nat) (before rest : List Cell) :
    headingsFrom (before.foldl Cell.continuesWord inWord) (position + before.length) rest ≤
      headingsFrom inWord position (before ++ rest) := by
  induction before generalizing inWord position with
  | nil => exact Nat.le_refl _
  | cons cell others ih =>
    have hlater := ih (cell.continuesWord inWord) (position + 1)
    have hlength : position + (cell :: others).length = position + 1 + others.length := by
      rw [List.length_cons]
      omega
    rw [List.cons_append, headingsFrom, List.foldl_cons, hlength]
    exact Nat.le_trans hlater (Nat.le_add_left ..)

theorem exists_first_of_heading? (h : slice.heading? = some heading) :
    ∃ first rest, slice.cells = first :: rest ∧ first.begins CharClass.isWordStart := by
  obtain ⟨_, hw, _⟩ := exists_word?_of_heading? h
  obtain ⟨first, word, rest, hc, _, _, hb, _⟩ := word?_append hw
  exact ⟨first, word ++ rest, hc, hb⟩

theorem not_opensBody (h : cell.within CharClass.isWord = false) :
    (Slice.mk position (cell :: rest)).opensBody = false := by
  rw [opensBody, Option.any_eq_false_iff_get]
  intro hs
  obtain ⟨heading, hh⟩ := Option.isSome_iff_exists.1 hs
  obtain ⟨first, others, hc, hb⟩ := exists_first_of_heading? hh
  cases hc
  have hword : cell.within CharClass.isWord := Cell.isWord_of_begins hb
  rw [h] at hword
  cases hword

theorem headingsFrom_of_not_within (h : ∀ cell ∈ cells.head?, cell.within CharClass.isWord = false)
    (inWord inWord' : Bool) :
    headingsFrom inWord position cells = headingsFrom inWord' position cells := by
  cases cells with
  | nil => rfl
  | cons cell rest =>
    have hcell := h cell rfl
    rw [headingsFrom, headingsFrom, Cell.continuesWord_eq_false hcell,
      Cell.continuesWord_eq_false hcell, not_opensBody hcell, Bool.and_false, Bool.and_false]

theorem foldl_continuesWord (h : ∀ cell ∈ cells, cell.within CharClass.isWord = false) :
    cells.foldl Cell.continuesWord false = false := by
  induction cells with
  | nil => rfl
  | cons cell rest ih =>
    rw [List.foldl_cons, Cell.continuesWord_eq_false (h cell List.mem_cons_self)]
    exact ih fun other ho => h other (List.mem_cons_of_mem _ ho)

/-- A tail that begins behind a cell that no word goes over. -/
def IsBehind (tail slice : Slice) : Prop :=
  ∃ before cell, slice.cells = before ++ cell :: tail.cells ∧
    tail.start = slice.start + before.length + 1 ∧ cell.within CharClass.isWord = false

theorem headingsFrom_behind (h : cell.within CharClass.isWord = false) (inWord : Bool)
    (position : Nat) (before rest : List Cell) :
    headingsFrom false (position + before.length + 1) rest ≤
      headingsFrom inWord position (before ++ cell :: rest) := by
  have hle := headingsFrom_append_le inWord position (before ++ [cell]) rest
  rwa [List.foldl_append, List.foldl_cons, List.foldl_nil, Cell.continuesWord_eq_false h,
    List.length_append, List.append_assoc, List.length_singleton, ← Nat.add_assoc] at hle

namespace IsBehind

theorem of_isTail (h : IsBehind tail slice) (ht : IsTail slice whole) : IsBehind tail whole := by
  obtain ⟨before, cell, hc, hs, hw⟩ := h
  obtain ⟨before', hc', hs'⟩ := ht
  refine ⟨before' ++ before, cell, by rw [hc', hc, List.append_assoc], ?_, hw⟩
  rw [hs, hs', List.length_append]
  omega

theorem headings_le (h : IsBehind tail slice) : tail.headings ≤ slice.headings := by
  obtain ⟨before, cell, hc, hs, hw⟩ := h
  rw [headings, headings, hc, hs]
  exact headingsFrom_behind hw ..

theorem headings_lt (h : IsBehind tail slice) (ho : slice.opensBody) :
    tail.headings < slice.headings := by
  obtain ⟨start, cells⟩ := slice
  obtain ⟨before, cell, rfl, hs, hw⟩ := h
  cases before with
  | nil =>
    rw [List.nil_append, not_opensBody hw] at ho
    cases ho
  | cons first others =>
    have hle := headingsFrom_behind hw (first.continuesWord false) (start + 1) others tail.cells
    have hstart : start + (first :: others).length + 1 = start + 1 + others.length + 1 := by
      rw [List.length_cons]
      omega
    rw [headings, headings, hs, List.cons_append, headingsFrom, ← List.cons_append, ho, hstart]
    exact Nat.lt_of_le_of_lt hle (Nat.lt_add_of_pos_left Nat.one_pos)

end IsBehind

theorem opensBody_iff : slice.opensBody ↔
    ∃ heading, slice.heading? = some heading ∧ heading.name.text ∈ ["if", "for", "while"] := by
  rw [opensBody, Option.any_eq_true]
  simp only [decide_eq_true_eq]

theorem headings_word? {name : Slice} (h : slice.word? CharClass.isWord = some (name, after)) :
    after.headings ≤ slice.headings := by
  obtain ⟨first, word, rest, hc, _, rfl, _, _, hnext⟩ := word?_append h
  have hle := headingsFrom_append_le false slice.start (first :: word) rest
  rw [headingsFrom_of_not_within hnext _ false, List.cons_append, ← hc] at hle
  exact hle

section

variable (hf : ∀ cell ∈ slice.cells, cell.IsFaithful)
include hf

theorem faithful_of_isTail (ht : IsTail tail slice) : ∀ cell ∈ tail.cells, cell.IsFaithful :=
  fun cell hc => hf cell (ht.isPart.subset hc)

theorem isBehind_block? (h : slice.block? = some (inner, after)) : IsBehind after slice := by
  obtain ⟨start, cells⟩ := slice
  have hb := h
  rw [block?, Option.map_eq_some_iff] at h
  obtain ⟨close, hc, _⟩ := h
  obtain ⟨opening, within, closing, rest, hs, ho, hclose⟩ := close?_spec hc
  cases hs
  rw [hclose] at hc
  rw [block?_eq hc] at hb
  cases hb
  have hmem : closing ∈ opening :: (within ++ closing :: rest) :=
    List.mem_cons_of_mem _ (List.mem_append_right _ List.mem_cons_self)
  refine ⟨opening :: within, closing, rfl, ?_, (hf closing hmem).not_isWord_of_closerOf ho⟩
  simp only [List.length_cons]
  omega

theorem isBehind_pastSemicolon? (h : slice.pastSemicolon? = some after) : IsBehind after slice := by
  obtain ⟨start, cells⟩ := slice
  rw [pastSemicolon?, Option.map_eq_some_iff] at h
  obtain ⟨stop, hstop, rfl⟩ := h
  obtain ⟨before, cell, rest, rfl, hb, rfl⟩ := find?_spec hstop
  have hmem : cell ∈ before ++ cell :: rest := List.mem_append_right _ List.mem_cons_self
  have hword : cell.within CharClass.isWord = false :=
    (hf cell hmem).not_within (c := ';') hb (by decide) (by decide)
  have hafter := fromOffset_append start (before ++ [cell]) rest
  rw [List.append_assoc, List.length_append, List.length_singleton, ← Nat.add_assoc] at hafter
  refine ⟨before, cell, ?_, rfl, hword⟩
  exact congrArg (fun tail => before ++ cell :: tail.cells) hafter.symm

theorem isBehind_heading? (h : slice.heading? = some heading) : IsBehind heading.after slice := by
  rw [heading?, Option.bind_eq_some_iff] at h
  obtain ⟨⟨name, list⟩, ho, h⟩ := h
  obtain ⟨⟨inner, after⟩, hb, rfl⟩ := Option.map_eq_some_iff.1 h
  have ht := (opening?_spec ho).1
  exact (isBehind_block? (faithful_of_isTail hf ht) hb).of_isTail ht

theorem headings_next? (h : slice.next? = some next) : next.headings ≤ slice.headings := by
  obtain ⟨rfl, _, _⟩ := next?_spec h
  have hcells := List.takeWhile_append_dropWhile (p := Cell.isBlank) (l := slice.cells)
  have hblank : ∀ cell ∈ slice.cells.takeWhile Cell.isBlank,
      cell.within CharClass.isWord = false := by
    intro cell hm
    have hmem := (List.takeWhile_sublist _).subset hm
    exact (hf cell hmem).not_isWord_of_isBlank (List.mem_takeWhile_imp hm)
  have hle := headingsFrom_append_le false slice.start (slice.cells.takeWhile Cell.isBlank)
    (slice.cells.dropWhile Cell.isBlank)
  rw [foldl_continuesWord hblank, hcells, ← cells_skipBlank] at hle
  exact hle

theorem headings_else (h : slice.next?.bind (Slice.after? "else") = some after) :
    after.headings ≤ slice.headings := by
  obtain ⟨next, hn, ha⟩ := Option.bind_eq_some_iff.1 h
  obtain ⟨name, hw, _⟩ := exists_word?_of_after? ha
  exact Nat.le_trans (headings_word? hw) (headings_next? hf hn)

theorem not_startsWith_brace (h : slice.heading? = some heading) : ¬ slice.startsWith '{' := by
  obtain ⟨first, rest, hc, hb⟩ := exists_first_of_heading? h
  have hne := (hf first (hc ▸ List.mem_cons_self)).byte_ne (Cell.within_of_begins hb) (c := '{')
    (by decide) (by decide)
  rw [startsWith, hc]
  intro hs
  exact hne (of_decide_eq_true hs)

end

end Slice

namespace Outline

open Slice (faithful_of_isTail headings_next? headings_else isBehind_heading?)

variable {levels levels' : Nat} {slice body after : Slice} {relation : Relation}
  {outline : Outline} {heading : Heading}

/-- What follows a conditional, given what follows its first branch. -/
def pastElse? (levels : Nat) (after : Slice) : Option Slice :=
  ((after.next?.bind (Slice.after? "else")).bind Slice.next?).elim (some after)
    (afterStatement? levels)

theorem afterStatement?_brace (hb : slice.startsWith '{') (levels : Nat) :
    afterStatement? levels slice =
      some (slice.block?.elim (slice.fromOffset slice.stop) fun block => block.2) := by
  rw [afterStatement?.eq_def, if_pos hb]
  cases slice.block? <;> rfl

theorem afterStatement?_plain (hb : ¬ slice.startsWith '{') (ho : ¬ slice.opensBody) :
    afterStatement? levels slice = slice.pastSemicolon? := by
  rw [afterStatement?.eq_def, if_neg hb]
  cases levels with
  | zero => rfl
  | succ levels =>
    cases hh : slice.heading? with
    | none => rfl
    | some heading =>
      have hk : ¬ (heading.name.text = "if" ∨ heading.name.text = "for" ∨
          heading.name.text = "while") := by
        intro hk
        exact ho (Slice.opensBody_iff.2 ⟨heading, hh, by simpa using hk⟩)
      simp only [hk, if_false]

theorem afterStatement?_heading (hb : ¬ slice.startsWith '{') (hh : slice.heading? = some heading)
    (hk : heading.name.text ∈ ["if", "for", "while"]) :
    afterStatement? (levels + 1) slice =
      (heading.after.next?.bind (afterStatement? levels)).bind fun after =>
        if heading.name.text = "if" then pastElse? levels after else some after := by
  have hk : heading.name.text = "if" ∨ heading.name.text = "for" ∨
      heading.name.text = "while" := by simpa using hk
  rw [afterStatement?.eq_def, if_neg hb]
  simp only [hh, hk, if_true]
  congr
  funext after
  rw [pastElse?]
  split
  · cases (after.next?.bind (Slice.after? "else")).bind Slice.next? <;> rfl
  · rfl

theorem body?_after (levels : Nat) (below : Option Level) (relation : Relation) (slice : Slice) :
    (body? levels below relation slice).map (·.2) = slice.next?.bind (afterStatement? levels) := by
  rw [body?_eq, bodyRange?]
  cases slice.next? with
  | none => rfl
  | some body =>
    rw [Option.bind_some, Option.bind_some]
    by_cases hb : body.startsWith '{'
    · rw [afterStatement?_brace hb, if_pos hb]
      cases body.block? <;> rfl
    · rw [if_neg hb]
      cases afterStatement? levels body <;> rfl

/-- A slice of a text with fewer headings than the given number. -/
structure HasFewer (count : Nat) (slice : Slice) : Prop where
  faithful : ∀ cell ∈ slice.cells, cell.IsFaithful
  lt : slice.headings < count

namespace HasFewer

variable {count : Nat}

theorem of_isTail (h : HasFewer count slice) (ht : IsTail after slice)
    (hle : after.headings ≤ slice.headings) : HasFewer count after :=
  ⟨faithful_of_isTail h.faithful ht, Nat.lt_of_le_of_lt hle h.lt⟩

theorem mono (h : HasFewer count slice) : HasFewer (count + 1) slice :=
  ⟨h.faithful, Nat.lt_succ_of_lt h.lt⟩

theorem next? (h : HasFewer count slice) (hn : slice.next? = some after) : HasFewer count after :=
  h.of_isTail (Slice.next?_spec hn).2.1 (headings_next? h.faithful hn)

theorem alternative (h : HasFewer count slice)
    (he : slice.next?.bind (Slice.after? "else") = some after) : HasFewer count after :=
  h.of_isTail (isTail_of_else he) (headings_else h.faithful he)

theorem first (h : HasFewer (count + 1) slice) (hh : slice.heading? = some heading)
    (hk : heading.name.text ∈ ["if", "for", "while"]) (hn : heading.after.next? = some body) :
    HasFewer count body := by
  have hlt := (isBehind_heading? h.faithful hh).headings_lt
    (Slice.opensBody_iff.2 ⟨heading, hh, hk⟩)
  have hafter : HasFewer count heading.after :=
    ⟨faithful_of_isTail h.faithful (Slice.heading?_spec hh).2.2.1,
      Nat.lt_of_lt_of_le hlt (Nat.le_of_lt_succ h.lt)⟩
  exact hafter.next? hn

theorem pastSemicolon? (h : HasFewer count slice) (ha : slice.pastSemicolon? = some after) :
    HasFewer count after :=
  h.of_isTail (Slice.pastSemicolon?_spec ha).1
    (Slice.isBehind_pastSemicolon? h.faithful ha).headings_le

/-- What follows a statement has no more headings than the text from the statement on. -/
theorem passes (h : HasFewer count slice) (hs : slice.start < slice.stop)
    (ha : Passes slice after) : HasFewer count after := by
  induction ha generalizing count with
  | block hb hblock =>
    exact h.of_isTail ((Passes.block hb hblock).spec hs).1
      (Slice.isBehind_block? h.faithful hblock).headings_le
  | @unclosed slice hb hblock =>
    have hnil : (slice.fromOffset slice.stop).cells = [] :=
      List.drop_eq_nil_of_le (by rw [Slice.stop]; omega)
    refine h.of_isTail ((Passes.unclosed hb hblock).spec hs).1 ?_
    rw [Slice.headings, hnil]
    exact Nat.zero_le _
  | simple ha => exact h.pastSemicolon? ha
  | headed hh hk hn _ ih =>
    obtain ⟨count, rfl⟩ := Nat.exists_eq_succ_of_ne_zero (Nat.ne_zero_of_lt h.lt)
    -- the heading that is passed pays for the level
    exact (ih (h.first hh hk hn) (Slice.next?_spec hn).2.2).mono
  | branched hh hk hn _ he ho _ ih ih' =>
    obtain ⟨count, rfl⟩ := Nat.exists_eq_succ_of_ne_zero (Nat.ne_zero_of_lt h.lt)
    have hmiddle := ih (h.first hh hk hn) (Slice.next?_spec hn).2.2
    exact (ih' ((hmiddle.alternative he).next? ho) (Slice.next?_spec ho).2.2).mono

theorem afterStatement? (h : HasFewer count slice) (hs : slice.start < slice.stop)
    (ha : Outline.afterStatement? levels slice = some after) : HasFewer count after :=
  h.passes hs (passes_of_afterStatement? ha)

end HasFewer

/-- With more levels than there are headings the last level is never reached. -/
theorem afterStatement?_congr (h : HasFewer levels slice) (h' : HasFewer levels' slice) :
    afterStatement? levels slice = afterStatement? levels' slice := by
  induction levels generalizing slice levels' with
  | zero => exact absurd h.lt (Nat.not_lt_zero _)
  | succ levels ih =>
    obtain ⟨levels', rfl⟩ := Nat.exists_eq_succ_of_ne_zero (Nat.ne_zero_of_lt h'.lt)
    by_cases hb : slice.startsWith '{'
    · rw [afterStatement?_brace hb, afterStatement?_brace hb]
    by_cases ho : slice.opensBody
    · obtain ⟨heading, hh, hk⟩ := Slice.opensBody_iff.1 ho
      rw [afterStatement?_heading hb hh hk, afterStatement?_heading hb hh hk]
      cases hn : heading.after.next? with
      | none => rfl
      | some body =>
        have hlow := h.first hh hk hn
        have hlow' := h'.first hh hk hn
        rw [Option.bind_some, Option.bind_some, ih hlow hlow']
        cases hbody : afterStatement? levels' body with
        | none => rfl
        | some middle =>
          have hne := (Slice.next?_spec hn).2.2
          have helse : pastElse? levels middle = pastElse? levels' middle := by
            rw [pastElse?, pastElse?]
            cases hother : (middle.next?.bind (Slice.after? "else")).bind Slice.next? with
            | none => rfl
            | some other =>
              obtain ⟨past, hp, hno⟩ := Option.bind_eq_some_iff.1 hother
              exact ih (((hlow.afterStatement? hne hbody).alternative hp).next? hno)
                (((hlow'.afterStatement? hne hbody).alternative hp).next? hno)
          rw [Option.bind_some, Option.bind_some, helse]
    · rw [afterStatement?_plain hb ho, afterStatement?_plain hb ho]

theorem rest_of_alternative? {middle past rest : Slice}
    (hm : HasFewer levels middle) (hp : middle.next?.bind (Slice.after? "else") = some past)
    (hc : ∀ inner conditional, HasFewer levels inner → afterStatement? levels inner = some after →
      conditional? levels (below levels) inner = some (conditional, rest) → rest = after)
    (h : pastElse? levels middle = some after)
    (ha : alternative? (levels + 1) (below (levels + 1)) past = some (outline, rest)) :
    rest = after := by
  rw [pastElse?, hp, Option.bind_some] at h
  rcases alternative?_spec ha with ⟨next, conditional, inner, hl, hn, hfound, _⟩ | ⟨_, hbody⟩
  · cases hl
    rw [hn] at h
    exact hc inner conditional ((hm.alternative hp).next? hn) h hfound
  · have hafter := body?_after (levels + 1) (below (levels + 1)) .alternative past
    rw [hbody, Option.map_some, eq_comm, Option.bind_eq_some_iff] at hafter
    obtain ⟨inner, hn, hinner⟩ := hafter
    have hfew := (hm.alternative hp).next? hn
    rw [hn, Option.elim_some, ← afterStatement?_congr hfew.mono hfew, hinner] at h
    exact Option.some.inj h

theorem eq_of_alternative?_none {middle : Slice} (hm : HasFewer levels middle)
    (h : pastElse? levels middle = some after)
    (ha : (middle.next?.bind (Slice.after? "else")).bind
      (alternative? (levels + 1) (below (levels + 1))) = none) : middle = after := by
  rw [pastElse?] at h
  cases hother : (middle.next?.bind (Slice.after? "else")).bind Slice.next? with
  | none =>
    rw [hother] at h
    exact Option.some.inj h
  | some other =>
    obtain ⟨past, hp, hn⟩ := Option.bind_eq_some_iff.1 hother
    rw [hp, Option.bind_some, alternative?] at ha
    have hbody : body? (levels + 1) (below (levels + 1)) .alternative past = none := by
      split at ha
      · cases ha
      · exact ha
    have hafter := body?_after (levels + 1) (below (levels + 1)) .alternative past
    have hfew := (hm.alternative hp).next? hn
    rw [hbody, hn, Option.bind_some, afterStatement?_congr hfew.mono hfew] at hafter
    rw [hother, Option.elim_some, ← hafter] at h
    cases h

/-- What a conditional or a loop is read up to is where the statement ends. -/
theorem Headed.rest_eq {rest : Slice} (h : Headed levels (Outline.below levels) slice outline rest)
    (hl : HasFewer levels slice) (ha : afterStatement? levels slice = some after) :
    rest = after := by
  induction levels generalizing slice outline rest after with
  | zero => exact absurd hl.lt (Nat.not_lt_zero _)
  | succ levels ih =>
    obtain ⟨heading, item, leaves, bodies, hread, _, _, _, _, _, _, hk, _, _, hfollow⟩ := h
    have hb := Slice.not_startsWith_brace hl.faithful hread
    rw [afterStatement?_heading hb hread hk, Option.bind_eq_some_iff] at ha
    obtain ⟨middle, hmiddle, ha⟩ := ha
    obtain ⟨body, hn, hbody⟩ := Option.bind_eq_some_iff.1 hmiddle
    have hlow := hl.first hread hk hn
    have hm := hlow.afterStatement? (Slice.next?_spec hn).2.2 hbody
    have hfirst (relation : Relation) :
        (body? (levels + 1) (below (levels + 1)) relation heading.after).map (·.2) =
          some middle := by
      rw [body?_after, hn, Option.bind_some, afterStatement?_congr hlow.mono hlow, hbody]
    cases hfollow with
    | none hnone =>
      have hfound := hfirst (bodyRelation heading.name.text)
      rw [hnone] at hfound
      cases hfound
    | one hone hnone =>
      have hfound := hfirst (bodyRelation heading.name.text)
      rw [hone] at hfound
      cases hfound
      split at ha
      · next hif => exact eq_of_alternative?_none hm ha (hnone hif)
      · exact Option.some.inj ha
    | two hif hone he halternative =>
      have hfound := hfirst .consequent
      rw [hone] at hfound
      cases hfound
      rw [if_pos hif] at ha
      apply rest_of_alternative? hm he ?_ ha halternative
      intro inner conditional hinner hafter hconditional
      obtain ⟨hheaded⟩ := conditional?_spec hconditional
      exact ih hheaded hinner hafter

end Outline

open Outline (afterStatement? below conditional? forLoop? whileLoop?)

/-- The scan over a statement and the recognisers of conditionals and loops end at the same place,
as long as the depth and the headings up to the limit do not add up to the deepest level. -/
theorem rest_eq_afterStatement (text : String) {start limit depth : Nat} {slice after : Slice}
    {found : Outline × Slice}
    (hs : (Source.ofString text).view.between? start limit = some slice)
    (ha : afterStatement? (maxNesting - depth) slice = some after)
    (hfound : found ∈ conditional? (maxNesting - depth) (below (maxNesting - depth)) slice ∨
      found ∈ forLoop? (maxNesting - depth) (below (maxNesting - depth)) slice ∨
      found ∈ whileLoop? (maxNesting - depth) (below (maxNesting - depth)) slice)
    (hd : depth + slice.headings < maxNesting) : found.2 = after := by
  have hpart : IsPart slice (Source.ofString text).view := Slice.isPart_between? hs
  have hfew : Outline.HasFewer (maxNesting - depth) slice :=
    ⟨fun cell hc => Source.isFaithful_view text cell (hpart.subset hc), by omega⟩
  obtain ⟨outline, rest⟩ := found
  rcases hfound with h | h | h
  · obtain ⟨hheaded⟩ := Outline.conditional?_spec h
    exact hheaded.rest_eq hfew ha
  · obtain ⟨hheaded⟩ := Outline.forLoop?_spec h
    exact hheaded.rest_eq hfew ha
  · obtain ⟨hheaded⟩ := Outline.whileLoop?_spec h
    exact hheaded.rest_eq hfew ha

/-- A chain of headings without braces, whose last `else` belongs to the first of them. -/
theorem rest_eq_afterStatement_chain :
    ∃ slice ∈ (Source.ofString
        "x(); if (a) for (;;) if (b) c(); else d(); else e(); y();").view.between? 5 57,
      ∃ after ∈ afterStatement? (maxNesting - 3) slice,
        ∃ found ∈ conditional? (maxNesting - 3) (below (maxNesting - 3)) slice,
          3 + slice.headings < maxNesting ∧ found.2 = after := by
  have h : ∃ slice ∈ (Source.ofString
        "x(); if (a) for (;;) if (b) c(); else d(); else e(); y();").view.between? 5 57,
      ∃ after ∈ afterStatement? (maxNesting - 3) slice,
        ∃ found ∈ conditional? (maxNesting - 3) (below (maxNesting - 3)) slice,
          3 + slice.headings < maxNesting := by
    decide +kernel
  obtain ⟨slice, hs, after, ha, found, hf, hd⟩ := h
  exact ⟨slice, hs, after, ha, found, hf, hd, rest_eq_afterStatement _ hs ha (.inl hf) hd⟩

end CodeOutline
