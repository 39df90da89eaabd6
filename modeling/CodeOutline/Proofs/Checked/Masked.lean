import CodeOutline.Proofs.Checked.Reading
import CodeOutline.Proofs.Source.Append
import CodeOutline.Proofs.Source.Mask

namespace CodeOutline

open Cell (layout width)

namespace Mask

theorem isBlank_blank (c : Char) : ∀ cell ∈ layout (blank c), cell.isBlank := by
  refine Cell.isBlank_of_mem_layout fun d hd => ?_
  rw [blank] at hd
  split at hd
  · rw [List.mem_singleton.1 hd]
    rfl
  · rw [List.eq_of_mem_replicate hd]
    rfl

theorem not_isBoundary_ofChar (c : Char) (right : List Cell) {offset : Nat} (h : 0 < offset)
    (hlt : offset < c.utf8Size) : Cell.isBoundary (Cell.ofChar c ++ right) offset = false := by
  obtain ⟨byte, others, ho, _⟩ := Cell.ofChar_eq_cons c
  rw [← Cell.ofChar_length, ho, List.length_cons] at hlt
  obtain ⟨index, rfl⟩ := Nat.exists_eq_succ_of_ne_zero (Nat.ne_of_gt h)
  have hindex := Nat.lt_of_succ_lt_succ hlt
  have hget : (Cell.ofChar c ++ right)[index + 1]? =
      some ((others.map fun byte => (⟨byte, none⟩ : Cell))[index]) := by
    rw [ho, List.cons_append, List.getElem?_cons_succ, List.getElem?_append_left hindex,
      List.getElem?_eq_getElem]
  rw [Cell.isBoundary, hget, List.getElem_map]
  rfl

/-- Where the masked text can be cut next to a byte that is not blank, the text can be cut too. -/
theorem isBoundary_of_runFrom {mode : Mode} {chars : List Char} {offset : Nat}
    (h : Cell.isBoundary (layout (runFrom mode chars)) offset)
    (hs : ∃ index cell, (layout (runFrom mode chars))[index]? = some cell ∧ cell.isBlank = false ∧
      (index = offset ∨ index + 1 = offset)) : Cell.isBoundary (layout chars) offset := by
  induction chars generalizing mode offset with
  | nil => exact h
  | cons c rest ih =>
    simp only [runFrom, Cell.layout_append] at h hs
    generalize hmasked : layout (if (mode.step c rest.head?).2 then [c] else blank c) = masked
      at h hs
    have hlength : masked.length = c.utf8Size := by
      rw [← hmasked]
      split
      · exact (congrArg List.length (List.append_nil _)).trans (Cell.ofChar_length c)
      · exact width_blank c
    have hfront : (Cell.ofChar c).length = c.utf8Size := Cell.ofChar_length c
    obtain ⟨index, cell, hget, hsolid, hnear⟩ := hs
    rcases Nat.lt_or_ge offset c.utf8Size with hlt | hge
    · rcases Nat.eq_zero_or_pos offset with rfl | hpos
      · exact Cell.isBoundary_layout [] (c :: rest)
      · exfalso
        rw [List.getElem?_append_left (by omega)] at hget
        split at hmasked
        · rw [← hmasked, Cell.layout_cons, Cell.layout_nil, List.append_nil,
            not_isBoundary_ofChar c _ hpos hlt] at h
          cases h
        · have hblank := isBlank_blank c cell (hmasked ▸ List.mem_of_getElem? hget)
          exact Bool.false_ne_true (hsolid.symm.trans hblank)
    · rcases Nat.eq_or_lt_of_le hge with rfl | hgt
      · have hb := Cell.isBoundary_layout [c] rest
        rwa [Cell.width_cons, Cell.width_nil, Nat.add_zero, hfront] at hb
      · rw [Cell.isBoundary_append_right (by omega), hlength] at h
        rw [List.getElem?_append_right (by omega), hlength] at hget
        rw [Cell.layout_cons, Cell.isBoundary_append_right (by omega), hfront]
        exact ih h ⟨index - c.utf8Size, cell, hget, hsolid, by omega⟩

end Mask

namespace Slice

theorem getLast?_trim (slice : Slice) :
    ∀ cell ∈ slice.trim.cells.getLast?, cell.isBlank = false := by
  intro cell hm
  have hhead := List.head?_dropWhile_not Cell.isBlank slice.skipBlank.cells.reverse
  rw [trim, List.getLast?_reverse, Option.mem_def] at hm
  rwa [hm] at hhead

theorem head?_trim (slice : Slice) : ∀ cell ∈ slice.trim.cells.head?, cell.isBlank = false := by
  intro cell hm
  have hhead := List.head?_dropWhile_not Cell.isBlank slice.cells
  have hprefix : slice.trim.cells <+: slice.skipBlank.cells := by
    have hsuffix := List.dropWhile_suffix Cell.isBlank (l := slice.skipBlank.cells.reverse)
    rwa [← List.reverse_prefix, List.reverse_reverse] at hsuffix
  obtain ⟨rest, hr⟩ := hprefix
  obtain ⟨others, ho⟩ := List.head?_eq_some_iff.1 hm
  rw [← cells_skipBlank, ← hr, ho] at hhead
  exact hhead

end Slice

namespace Checked

open Slice (IsPart IsTail IsWhole)

variable {text : String} {part slice : Slice}

/-- The characters of the masked text. -/
abbrev maskedChars (text : String) : List Char :=
  Mask.chars text.toList

theorem trim_eq (h : IsPart slice (Source.ofString text).view) :
    trim (Source.ofString text) slice.span = .ok slice.trim.span := by
  have hstop := h.stop_le
  have hview : (Source.ofString text).view.stop = (Source.ofString text).masked.length :=
    Nat.zero_add _
  have hmin : min slice.stop (Source.ofString text).masked.length = slice.stop :=
    Nat.min_eq_left (hview ▸ hstop)
  have hskip := Slice.isTail_skipBlank slice
  have hstart : slice.start + (slice.cells.takeWhile Cell.isBlank).length =
      slice.skipBlank.start := rfl
  have hcount : slice.stop - slice.skipBlank.start = slice.skipBlank.cells.length := by
    rw [← hskip.stop_eq, Slice.stop]
    omega
  have hend : slice.stop = slice.skipBlank.start + slice.skipBlank.cells.length := by
    rw [← hskip.stop_eq]
    rfl
  have hforward := skipBlanks_eq rfl h
  rw [hstart] at hforward
  have hback : dropBlanks (Source.ofString text).view slice.stop slice.skipBlank.cells.length =
      .ok (slice.skipBlank.start +
        (slice.skipBlank.cells.reverse.dropWhile Cell.isBlank).length) := by
    rw [hend]
    exact dropBlanks_eq rfl (hskip.isPart.trans h)
  have hbytes : slice.stop - slice.start = slice.cells.length := Nat.add_sub_cancel_left ..
  have htrim : slice.trim.span = ⟨slice.skipBlank.start, slice.skipBlank.start +
      (slice.skipBlank.cells.reverse.dropWhile Cell.isBlank).length⟩ := by
    rw [← List.length_reverse]
    rfl
  rw [trim, htrim]
  simp only [Slice.span, hmin, hbytes, hforward, hcount, hback, ok_bind, pure_eq_ok]

theorem cut_view (h : IsWhole (maskedChars text) part) :
    cut (Source.ofString text).view part.span = .ok part :=
  cut_eq rfl (Slice.isWhole_laid _) h h.isPart

/-- What the text itself has at the place of a part of the masked text. -/
def inText (text : String) (part : Slice) : Slice :=
  ⟨part.start, ((Source.ofString text).cells.drop part.start).take part.cells.length⟩

theorem inText_spec (h : IsPart part (Source.ofString text).view) :
    IsPart (inText text part) (Source.ofString text).original ∧
      (inText text part).stop = part.stop := by
  have hle : part.stop ≤ (Source.ofString text).cells.length := by
    have hview := h.stop_le
    rw [Source.stop_view] at hview
    exact hview.trans_eq (Cell.width_toList text).symm
  have htail : IsTail ⟨part.start, (Source.ofString text).cells.drop part.start⟩
      (Source.ofString text).original :=
    Slice.isTail_fromOffset (Nat.zero_le _)
      (Nat.le_trans part.start_le_stop (hle.trans_eq (Nat.zero_add _).symm))
  refine ⟨(Slice.isPart_take _ part.cells.length).trans htail.isPart, ?_⟩
  rw [Slice.stop] at hle ⊢
  simp only [inText, List.length_take, List.length_drop, Slice.stop]
  omega

/-- Where a part of the masked text neither begins nor ends with a blank, the text has whole
characters too. -/
theorem isWhole_inText (h : IsWhole (maskedChars text) part)
    (hh : ∀ cell ∈ part.cells.head?, cell.isBlank = false)
    (hl : ∀ cell ∈ part.cells.getLast?, cell.isBlank = false) (hne : part.cells ≠ []) :
    IsWhole text.toList (inText text part) := by
  obtain ⟨before, after, hc, hs⟩ := h.isPart
  rw [Slice.laid_start, Nat.zero_add] at hs
  have hcells : Cell.layout (maskedChars text) = before ++ (part.cells ++ after) := hc
  obtain ⟨hpart, hstop⟩ := inText_spec h.isPart
  refine ⟨hpart, ?_, hstop ▸ ?_⟩
  · obtain ⟨first, rest, hp⟩ := List.exists_cons_of_ne_nil hne
    refine Mask.isBoundary_of_runFrom h.start ⟨part.start, first, ?_, hh first ?_, .inl rfl⟩
    · exact (congrArg (·[part.start]?) hcells).trans (by simp [hs, hp])
    · rw [hp]
      rfl
  · obtain ⟨front, last, hp⟩ : ∃ front last, part.cells = front ++ [last] :=
      ⟨_, _, (List.dropLast_concat_getLast hne).symm⟩
    refine Mask.isBoundary_of_runFrom h.stop
      ⟨part.start + front.length, last, ?_, hl last ?_, .inr ?_⟩
    · exact (congrArg (·[part.start + front.length]?) hcells).trans (by simp [hs, hp])
    · rw [hp, List.getLast?_concat]
      rfl
    · rw [Slice.stop, hp, List.length_append, List.length_singleton, Nat.add_assoc]

theorem isWhole_trim (h : IsWhole (maskedChars text) slice) (hne : slice.trim.cells ≠ []) :
    IsWhole text.toList (inText text slice.trim) :=
  isWhole_inText h.trim (Slice.head?_trim slice) (Slice.getLast?_trim slice) hne

theorem fragment_eq (h : IsWhole (maskedChars text) slice) :
    fragment (Source.ofString text) slice.span = .ok ((Source.ofString text).fragment? slice) := by
  rw [fragment, trim_eq h.isPart, ok_bind, Source.fragment?]
  by_cases he : slice.trim.cells = []
  · have hspan : ¬ slice.trim.span.start < slice.trim.span.stop := by
      rw [Slice.span, Slice.stop, he]
      exact Nat.lt_irrefl _
    rw [if_neg hspan, if_pos (by rw [Slice.isEmpty, he]; rfl)]
    rfl
  · have hspan : slice.trim.span.start < slice.trim.span.stop :=
      Nat.lt_add_of_pos_right (List.length_pos_iff.2 he)
    have hwhole := isWhole_trim h he
    have hcut : cut (Source.ofString text).original (inText text slice.trim).span =
        .ok (inText text slice.trim) :=
      cut_eq rfl (Slice.isWhole_laid text.toList) hwhole hwhole.isPart
    have hplace : (inText text slice.trim).span = slice.trim.span :=
      congrArg (Span.mk _) (inText_spec h.trim.isPart).2
    rw [hplace] at hcut
    rw [if_pos hspan, if_neg (by rwa [Slice.isEmpty, List.isEmpty_iff]), hcut, ok_bind]
    rfl

theorem maskedFragment_eq (h : IsWhole (maskedChars text) slice) :
    maskedFragment (Source.ofString text) slice.span = .ok slice.trim.text := by
  rw [maskedFragment, trim_eq h.isPart, ok_bind, cut_view h.trim]
  rfl

end Checked

theorem exists_front (chars : List Char) (offset : Nat) :
    ∃ front back, chars = front ++ back ∧ width front ≤ offset ∧
      ∀ c ∈ back.head?, offset < width front + c.utf8Size := by
  induction chars generalizing offset with
  | nil => exact ⟨[], [], rfl, Nat.zero_le _, fun _ hm => by cases hm⟩
  | cons c rest ih =>
    rcases Nat.lt_or_ge offset c.utf8Size with hlt | hge
    · refine ⟨[], c :: rest, rfl, Nat.zero_le _, fun d hd => ?_⟩
      cases hd
      rwa [Cell.width_nil, Nat.zero_add]
    · obtain ⟨front, back, rfl, hle, hnext⟩ := ih (offset - c.utf8Size)
      refine ⟨c :: front, back, rfl, ?_, fun d hd => ?_⟩
      · rw [Cell.width_cons, Cell.ofChar_length]
        omega
      · have := hnext d hd
        rw [Cell.width_cons, Cell.ofChar_length]
        omega

theorem exists_lastLine (chars : List Char) :
    ∃ lines last, chars = lines ++ last ∧ '\n' ∉ last ∧ (lines = [] ∨ lines.getLast? = some '\n') := by
  induction chars using List.reverseRecOn with
  | nil => exact ⟨[], [], rfl, List.not_mem_nil, .inl rfl⟩
  | append_singleton chars c ih =>
    by_cases hc : c = '\n'
    · exact ⟨chars ++ [c], [], (List.append_nil _).symm, List.not_mem_nil,
        .inr (by rw [List.getLast?_concat, hc])⟩
    · obtain ⟨lines, last, rfl, hl, hlines⟩ := ih
      refine ⟨lines, last ++ [c], List.append_assoc .., ?_, hlines⟩
      rw [List.mem_append, List.mem_singleton]
      exact fun hm => hm.elim hl fun he => hc he.symm

namespace Location

theorem advance_line {chars : List Char} (h : '\n' ∉ chars) (location : Location) :
    location.advance (width chars) chars = ⟨location.line, location.column + chars.length⟩ := by
  induction chars generalizing location with
  | nil => rfl
  | cons c rest ih =>
    rw [List.mem_cons, not_or] at h
    rw [Cell.width_cons, Cell.ofChar_length, advance, if_pos (Nat.le_add_right ..),
      Nat.add_sub_cancel_left, ih h.2, after, if_neg (Ne.symm h.1), List.length_cons,
      Nat.add_assoc, Nat.add_comm 1]

theorem advance_lines {lines last : List Char} (hl : '\n' ∉ last)
    (hlines : lines = [] ∨ lines.getLast? = some '\n') :
    origin.advance (width (lines ++ last)) (lines ++ last) =
      ⟨1 + (lines ++ last).count '\n', last.length⟩ := by
  rw [Cell.width_append, advance_append, List.count_append, List.count_eq_zero_of_not_mem hl,
    Nat.add_zero, advance_line hl]
  rcases hlines with rfl | hlines
  · rw [Cell.width_nil, advance]
    exact congrArg (Location.mk _) (Nat.zero_add _)
  · rw [advance_lineBreak hlines]
    exact congrArg (Location.mk _) (Nat.zero_add _)

theorem advance_of_lt {front back : List Char} {offset : Nat} (hle : width front ≤ offset)
    (h : ∀ c ∈ back.head?, offset < width front + c.utf8Size) (location : Location) :
    location.advance offset (front ++ back) = location.advance (width front) front := by
  obtain ⟨bytes, rfl⟩ := Nat.exists_eq_add_of_le hle
  rw [advance_append]
  cases back with
  | nil => rw [advance]
  | cons c rest =>
    have := h c rfl
    rw [advance, if_neg (by omega)]

end Location

namespace Checked

theorem floorBoundary_eq {cells : List Cell} {offset found : Nat} (hle : found ≤ offset)
    (hb : Cell.isBoundary cells found)
    (hn : ∀ other, found < other → other ≤ offset → Cell.isBoundary cells other = false) :
    floorBoundary cells offset = found := by
  induction offset with
  | zero => exact (Nat.eq_zero_of_le_zero hle).symm
  | succ offset ih =>
    rw [floorBoundary]
    rcases Nat.lt_or_eq_of_le hle with hlt | rfl
    · rw [hn _ hlt (Nat.le_refl _), if_neg Bool.false_ne_true]
      exact ih (Nat.le_of_lt_succ hlt) fun other hl hr => hn other hl (Nat.le_succ_of_le hr)
    · rw [if_pos hb]

theorem not_isBoundary_of_lt {front back : List Char} {offset other : Nat}
    (h : ∀ c ∈ back.head?, offset < width front + c.utf8Size) (hl : width front < other)
    (hr : other ≤ min offset (layout (front ++ back)).length) :
    Cell.isBoundary (layout (front ++ back)) other = false := by
  have hwidth : (layout (front ++ back)).length = width front + width back :=
    Cell.width_append front back
  rw [Cell.layout_append, Cell.isBoundary_append_right (Nat.le_of_lt hl)]
  cases back with
  | nil =>
    rw [Cell.width_nil] at hwidth
    omega
  | cons c rest =>
    have := h c rfl
    have hwidth' : width front = (layout front).length := rfl
    rw [Cell.layout_cons]
    exact Mask.not_isBoundary_ofChar c _ (by omega) (by omega)

theorem floorBoundary_layout {front back : List Char} {offset : Nat} (hle : width front ≤ offset)
    (h : ∀ c ∈ back.head?, offset < width front + c.utf8Size) :
    floorBoundary (layout (front ++ back)) (min offset (layout (front ++ back)).length) =
      width front := by
  have hwidth : (layout (front ++ back)).length = width front + width back :=
    Cell.width_append front back
  exact floorBoundary_eq (by omega) (Cell.isBoundary_layout front back) fun _ hl hr =>
    not_isBoundary_of_lt h hl hr

theorem takeWhile_lastLine {lines last : List Char} (hl : '\n' ∉ last)
    (hlines : lines = [] ∨ lines.getLast? = some '\n') :
    ((layout (lines ++ last)).reverse.takeWhile fun cell => !cell.isLineBreak) =
      (layout last).reverse := by
  have hlast : ∀ cell ∈ (layout last).reverse, (!cell.isLineBreak) = true := by
    intro cell hm
    obtain ⟨c, hc, hcell⟩ := List.mem_flatMap.1 (List.mem_reverse.1 hm)
    rw [Cell.isLineBreak_of_mem_ofChar hcell, decide_eq_false fun (he : c = '\n') => hl (he ▸ hc)]
    rfl
  have hbreak : ∀ cell, (layout lines).reverse.head? = some cell →
      (!cell.isLineBreak) = false := by
    intro cell hc
    rw [List.head?_reverse] at hc
    obtain ⟨c, hm, hcell⟩ := Cell.getLast?_layout hc
    rcases hlines with rfl | hlines
    · cases hc
    · rw [hlines] at hm
      cases hm
      rw [Cell.isLineBreak_of_mem_ofChar hcell]
      rfl
  rw [Cell.layout_append, List.reverse_append, Slice.takeWhile_append_of_all hlast hbreak]

theorem lastLine_eq {lines last : List Char} (hl : '\n' ∉ last)
    (hlines : lines = [] ∨ lines.getLast? = some '\n') :
    lastLine (layout (lines ++ last)) = width lines := by
  rw [lastLine, takeWhile_lastLine hl hlines, List.length_reverse, Cell.layout_append,
    List.length_append, Nat.add_sub_cancel]
  rfl

theorem locate_eq (text : String) (offset : Nat) :
    locate (Source.ofString text) offset = .ok ((Source.ofString text).locate offset) := by
  obtain ⟨front, back, hf, hle, hnext⟩ := exists_front text.toList offset
  obtain ⟨lines, last, rfl, hl, hlines⟩ := exists_lastLine front
  have hfloor : floorBoundary (Source.ofString text).cells
      (min offset (Source.ofString text).size) = width (lines ++ last) := by
    have hlayout := floorBoundary_layout hle hnext
    rwa [← hf] at hlayout
  have hbefore : cut (Source.ofString text).original ⟨0, width (lines ++ last)⟩ =
      .ok (Slice.laid 0 (lines ++ last)) := by
    have hwhole := Slice.isWhole_append [] (lines ++ last) back
    rw [List.nil_append, ← hf] at hwhole
    have hcut := cut_eq rfl (Slice.isWhole_laid text.toList) hwhole hwhole.isPart
    rwa [Slice.span, Slice.laid_stop, Slice.laid_start, Cell.width_nil, Nat.zero_add] at hcut
  have hline : cut (Slice.laid 0 (lines ++ last)) ⟨width lines, (Slice.laid 0 (lines ++ last)).stop⟩ =
      .ok (Slice.laid (width lines) last) := by
    have hwhole := Slice.isWhole_append lines last []
    rw [List.append_nil] at hwhole
    have hcut := cut_eq rfl (Slice.isWhole_laid (lines ++ last)) hwhole hwhole.isPart
    rwa [Slice.span, Slice.laid_stop, ← Cell.width_append, ← Nat.zero_add (width (lines ++ last))]
      at hcut
  have hlocation : (Source.ofString text).locate offset =
      ⟨1 + (lines ++ last).count '\n', last.length⟩ := by
    rw [← Location.advance_lines hl hlines, ← Location.advance_of_lt hle hnext, ← hf]
    rfl
  have hlast : lastLine (Slice.laid 0 (lines ++ last)).cells = width lines := lastLine_eq hl hlines
  simp only [locate, hfloor, hbefore, hlast, hline, ok_bind, pure_eq_ok, hlocation]
  simp only [Slice.laid, Cell.lineBreaks_layout, Cell.chars_layout]

end Checked

end CodeOutline
