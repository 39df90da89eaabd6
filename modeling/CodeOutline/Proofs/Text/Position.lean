import CodeOutline.Proofs.Text.Shown
import CodeOutline.Script.Describe
import Mathlib.Data.Prod.Lex
import Mathlib.Order.Bounds.Basic
import Mathlib.Order.Monotone.Basic

namespace CodeOutline

open Cell (layout lineBreaks width)

/-- The offsets of a text that do not stand inside a character. -/
def cuts (text : String) : Set Nat :=
  {offset | Cell.isBoundary (layout text.toList) offset}

/-- The lines in their order, and in a line the columns. -/
def Location.rank (location : Location) : Nat ×ₗ Nat :=
  toLex (location.line, location.column)

/-- An offset with the line breaks before it and the bytes behind the last of these. -/
def Point.ofOffset (cells : List Cell) (offset : Nat) : Point where
  byte := offset
  row := lineBreaks (cells.take offset)
  column := ((cells.take offset).reverse.takeWhile fun cell => !cell.isLineBreak).length

variable {text : String} {offset : Nat} {front back : List Char}

namespace Location

theorem rank_lt_after (location : Location) (c : Char) :
    location.rank < (location.after c).rank := by
  rw [after]
  split
  · exact Prod.Lex.toLex_lt_toLex.2 (.inl (Nat.lt_succ_self _))
  · exact Prod.Lex.toLex_lt_toLex.2 (.inr ⟨rfl, Nat.lt_succ_self _⟩)

theorem rank_le_advance (location : Location) (bytes : Nat) (chars : List Char) :
    location.rank ≤ (location.advance bytes chars).rank := by
  induction chars generalizing location bytes with
  | nil => exact le_rfl
  | cons c rest ih =>
    rw [advance]
    split
    · exact (rank_lt_after location c).le.trans (ih ..)
    · exact le_rfl

theorem rank_lt_advance {chars : List Char} (h : chars ≠ []) (location : Location) :
    location.rank < (location.advance (width chars) chars).rank := by
  obtain ⟨c, rest, rfl⟩ := List.exists_cons_of_ne_nil h
  rw [Cell.width_cons, Cell.ofChar_length, advance, if_pos (Nat.le_add_right ..)]
  exact (rank_lt_after location c).trans_le (rank_le_advance ..)

end Location

/-- A text can be cut behind each of its beginnings and nowhere else. -/
theorem mem_cuts_iff :
    offset ∈ cuts text ↔ ∃ front back, text.toList = front ++ back ∧ width front = offset := by
  constructor
  · exact Cell.exists_of_isBoundary
  · rintro ⟨front, back, hf, rfl⟩
    rw [cuts, hf]
    exact Cell.isBoundary_layout front back

theorem locate_width (h : text.toList = front ++ back) :
    locate text (width front) = Location.origin.advance (width front) front := by
  rw [locate, h]
  exact Location.advance_append_of_le (Nat.le_refl _) _ _

theorem exists_between_cuts {later : Nat} (h : offset ∈ cuts text) (h' : later ∈ cuts text)
    (hlt : offset < later) : ∃ front middle back, text.toList = front ++ (middle ++ back) ∧
      middle ≠ [] ∧ width front = offset ∧ width (front ++ middle) = later := by
  obtain ⟨front, rest, hf, rfl⟩ := mem_cuts_iff.1 h
  have hlater : Cell.isBoundary (layout text.toList) later := h'
  rw [hf, Cell.layout_append, Cell.isBoundary_append_right (Nat.le_of_lt hlt)] at hlater
  obtain ⟨middle, back, rfl, hm⟩ := Cell.exists_of_isBoundary hlater
  have hlater : width (front ++ middle) = later := by
    rw [Cell.width_append, hm]
    exact Nat.add_sub_cancel' (Nat.le_of_lt hlt)
  refine ⟨front, middle, back, hf, ?_, rfl, hlater⟩
  rintro rfl
  rw [List.append_nil] at hlater
  omega

theorem rank_locate_lt {later : Nat} (h : offset ∈ cuts text) (h' : later ∈ cuts text)
    (hlt : offset < later) : (locate text offset).rank < (locate text later).rank := by
  obtain ⟨front, middle, back, hf, hne, rfl, rfl⟩ := exists_between_cuts h h' hlt
  rw [locate_width hf, locate_width (hf.trans (List.append_assoc ..).symm), Cell.width_append,
    Location.advance_append]
  exact Location.rank_lt_advance hne _

/-- The last cut up to an offset. -/
theorem exists_last_cut (text : String) (offset : Nat) :
    ∃ cut, IsGreatest {place ∈ cuts text | place ≤ min offset text.utf8ByteSize} cut ∧
      locate text offset = locate text cut := by
  obtain ⟨front, back, hf, hle, hnext⟩ := exists_front text.toList offset
  have hsize : text.utf8ByteSize = (layout (front ++ back)).length := by
    rw [← hf]
    exact (Cell.width_toList text).symm
  have hfront : width front ≤ text.utf8ByteSize := by
    rw [hsize]
    exact (Nat.le_add_right ..).trans_eq (Cell.width_append front back).symm
  have hcut := mem_cuts_iff.2 ⟨front, back, hf, rfl⟩
  refine ⟨width front, ⟨⟨hcut, Nat.le_min.2 ⟨hle, hfront⟩⟩, ?_⟩, ?_⟩
  · rintro place ⟨hp, hbound⟩
    have hp : Cell.isBoundary (layout text.toList) place := hp
    rw [hf] at hp
    rw [hsize] at hbound
    refine Nat.le_of_not_lt fun hlt => ?_
    exact Bool.false_ne_true ((Checked.not_isBoundary_of_lt hnext hlt hbound).symm.trans hp)
  · rw [locate_width hf, ← Location.advance_of_lt hle hnext, ← hf]
    rfl

/-- The locations of the cuts of a text come in the order of their offsets, by lines and then by
columns, so no two of them are the same. The line counts the line breaks, and any other offset has
the location of the last cut before it. -/
theorem strictMonoOn_locate (text : String) :
    StrictMonoOn (fun offset => (locate text offset).rank) (cuts text) ∧
    Set.InjOn (locate text) (cuts text) ∧
    (∀ offset, (locate text offset).line = 1 + lineBreaks ((layout text.toList).take offset)) ∧
    ∀ offset, ∃ cut, IsGreatest {place ∈ cuts text | place ≤ min offset text.utf8ByteSize} cut ∧
      locate text offset = locate text cut := by
  have hmono : StrictMonoOn (fun offset => (locate text offset).rank) (cuts text) :=
    fun _ h _ h' => rank_locate_lt h h'
  refine ⟨hmono, fun offset h other h' he => ?_, line_locate text, exists_last_cut text⟩
  exact hmono.injOn h h' (congrArg Location.rank he)

/-- The offset in a character of two bytes is that of the character, and the line break behind it is
in the line that it ends. -/
theorem locate_around_lineBreak :
    (locate "é\nx" 2).rank < (locate "é\nx" 3).rank ∧ locate "é\nx" 1 = ⟨1, 0⟩ ∧
      locate "é\nx" 2 = ⟨1, 1⟩ := by
  have hcut : ∀ offset ∈ [2, 3], offset ∈ cuts "é\nx" := by
    have hboundary : ∀ offset ∈ [2, 3], Cell.isBoundary (layout "é\nx".toList) offset := by
      decide +kernel
    exact hboundary
  refine ⟨(strictMonoOn_locate "é\nx").1 (hcut 2 ?_) (hcut 3 ?_) ?_, ?_, ?_⟩
  all_goals decide +kernel

namespace Point

theorem ofOffset_length (cells : List Cell) :
    ofOffset cells cells.length = ⟨cells.length, lineBreaks cells,
      (cells.reverse.takeWhile fun cell => !cell.isLineBreak).length⟩ := by
  rw [ofOffset, List.take_length]

theorem ofOffset_append (left right : List Cell) :
    ofOffset (left ++ right) left.length = ofOffset left left.length := by
  rw [ofOffset, ofOffset, List.take_left, List.take_length]

theorem after_ofOffset (cells : List Cell) (c : Char) :
    (ofOffset cells cells.length).after c =
      ofOffset (cells ++ Cell.ofChar c) (cells ++ Cell.ofChar c).length := by
  rw [ofOffset_length, ofOffset_length, Cell.lineBreaks_append, Cell.lineBreaks_ofChar,
    List.reverse_append, List.length_append, Cell.ofChar_length, after]
  by_cases hc : c = '\n'
  · subst hc
    rfl
  · have hline : ∀ cell ∈ (Cell.ofChar c).reverse, !cell.isLineBreak := by
      intro cell hm
      rw [Cell.isLineBreak_of_mem_ofChar (List.mem_reverse.1 hm), decide_eq_false hc]
      rfl
    rw [if_neg hc, if_neg hc, List.takeWhile_append_of_pos hline, List.length_append,
      List.length_reverse, Cell.ofChar_length, Nat.add_comm c.utf8Size, Nat.add_zero]

end Point

namespace Cursor

theorem skip_ofOffset (count : Nat) (front back : List Char) :
    skip count ⟨.ofOffset (layout front) (width front), back⟩ =
      ⟨.ofOffset (layout (front ++ back.take count)) (width (front ++ back.take count)),
        back.drop count⟩ := by
  induction count generalizing front back with
  | zero => rw [skip, List.take_zero, List.append_nil, List.drop_zero]
  | succ count ih =>
    cases back with
    | nil => rw [skip, List.take_nil, List.append_nil, List.drop_nil]
    | cons c rest =>
      have hlayout : layout (front ++ [c]) = layout front ++ Cell.ofChar c := by
        rw [Cell.layout_append, Cell.layout_cons, Cell.layout_nil, List.append_nil]
      rw [skip, width, Point.after_ofOffset, ← hlayout]
      exact (ih (front ++ [c]) rest).trans (by rw [List.append_assoc]; rfl)

theorem point_skip (count : Nat) (h : text.toList.take count = front) :
    ((ofText text).skip count).point = Point.ofOffset (layout text.toList) (width front) := by
  have hskip := skip_ofOffset count [] text.toList
  rw [List.nil_append, h] at hskip
  rw [← List.take_append_drop count text.toList, h, Cell.layout_append, width,
    Point.ofOffset_append]
  exact congrArg Cursor.point hskip

end Cursor

namespace Script

/-- The column of a point in bytes and the line that its bytes are cut from give the column in
characters. -/
theorem location_ofOffset (h : offset ∈ cuts text) :
    location (.ofString text) offset (Point.ofOffset (layout text.toList) offset) =
      locate text offset := by
  obtain ⟨front, back, hf, rfl⟩ := mem_cuts_iff.1 h
  obtain ⟨lines, last, rfl, hl, hlines⟩ := exists_lastLine front
  have hpoint : Point.ofOffset (layout text.toList) (width (lines ++ last)) =
      ⟨width (lines ++ last), (lines ++ last).count '\n', width last⟩ := by
    rw [hf, Cell.layout_append, width, Point.ofOffset_append, Point.ofOffset_length,
      Cell.lineBreaks_layout, Checked.takeWhile_lastLine hl hlines, List.length_reverse]
    rfl
  have hstart : width (lines ++ last) - width last = width lines := by
    rw [Cell.width_append, Nat.add_sub_cancel]
  have hwhole := Slice.isWhole_append lines last back
  rw [← List.append_assoc, ← hf] at hwhole
  have hcut := Checked.between?_eq rfl (Slice.isWhole_laid text.toList) hwhole hwhole.isPart
  rw [Slice.laid_start, Slice.laid_stop, ← Cell.width_append] at hcut
  have htext : between? (.ofString text) (width lines) (width (lines ++ last)) =
      some (String.ofList last) :=
    congrArg (Option.map Slice.text) hcut |>.trans (congrArg some (Slice.laid_text ..))
  rw [hpoint, locate_width hf, Location.advance_lines hl hlines, location, hstart, htext,
    Option.map_some, Option.getD_some, String.length_ofList, Nat.add_comm]

/-- At every cut of a text the point that a cursor has there stands for the location of the cut, and
cursors come to the cuts of the text and to nothing else. -/
theorem location_eq_locate (text : String) :
    (∀ offset ∈ cuts text,
      location (.ofString text) offset (Point.ofOffset (layout text.toList) offset) =
        locate text offset) ∧
    Set.range (fun count => ((Cursor.ofText text).skip count).point) =
      Point.ofOffset (layout text.toList) '' cuts text := by
  refine ⟨fun offset h => location_ofOffset h, Set.Subset.antisymm ?_ ?_⟩
  · rintro _ ⟨count, rfl⟩
    have happend := (List.take_append_drop count text.toList).symm
    exact ⟨_, mem_cuts_iff.2 ⟨_, _, happend, rfl⟩, (Cursor.point_skip count rfl).symm⟩
  · rintro _ ⟨offset, h, rfl⟩
    obtain ⟨front, back, hf, rfl⟩ := mem_cuts_iff.1 h
    refine ⟨front.length, Cursor.point_skip front.length ?_⟩
    rw [hf, List.take_left]

/-- Behind a character of two bytes the column in characters is the smaller one. -/
theorem location_behind_wide :
    let text := "a\né x"
    4 ∈ cuts text ∧ Point.ofOffset (layout text.toList) 4 = ⟨4, 1, 2⟩ ∧
      location (.ofString text) 4 ⟨4, 1, 2⟩ = ⟨2, 1⟩ := by
  intro text
  have hcut : Cell.isBoundary (layout text.toList) 4 := by decide +kernel
  have hpoint : Point.ofOffset (layout text.toList) 4 = ⟨4, 1, 2⟩ := by decide +kernel
  refine ⟨hcut, hpoint, ?_⟩
  rw [← hpoint, (location_eq_locate text).1 4 hcut]
  decide +kernel

end Script

end CodeOutline
