import CodeOutline.Proofs.Source.Mask

namespace CodeOutline

namespace Cell

def isLineBreak (cell : Cell) : Bool :=
  cell.byte = 0x0A

def lineBreaks (cells : List Cell) : Nat :=
  cells.countP isLineBreak

@[simp] theorem lineBreaks_nil : lineBreaks [] = 0 := rfl

@[simp] theorem lineBreaks_append (left right : List Cell) :
    lineBreaks (left ++ right) = lineBreaks left + lineBreaks right :=
  List.countP_append

theorem isLineBreak_of_mem_ofChar {c : Char} {cell : Cell} (h : cell ∈ ofChar c) :
    cell.isLineBreak = decide (c = '\n') := by
  rw [isLineBreak, decide_eq_decide]
  constructor
  · exact fun hb => eq_of_byte_eq h (by decide) hb
  · rintro rfl
    rw [List.mem_singleton.1 (h : cell ∈ [⟨0x0A, some '\n'⟩])]
    rfl

theorem lineBreaks_eq_zero {c : Char} (hc : c ≠ '\n') {cells : List Cell}
    (h : ∀ cell ∈ cells, cell ∈ ofChar c) : lineBreaks cells = 0 := by
  refine List.countP_eq_zero.2 fun cell hm hb => hc ?_
  rw [isLineBreak_of_mem_ofChar (h cell hm)] at hb
  exact of_decide_eq_true hb

theorem lineBreaks_ofChar (c : Char) : lineBreaks (ofChar c) = if c = '\n' then 1 else 0 := by
  split
  · next hc =>
    subst hc
    rfl
  · next hc => exact lineBreaks_eq_zero hc fun _ hm => hm

theorem lineBreaks_layout (chars : List Char) : lineBreaks (layout chars) = chars.count '\n' := by
  induction chars with
  | nil => rfl
  | cons c rest ih =>
    rw [layout_cons, lineBreaks_append, lineBreaks_ofChar, ih, List.count_cons, Nat.add_comm]
    simp only [beq_iff_eq]

end Cell

open Cell (layout lineBreaks width)

namespace Location

theorem line_after (location : Location) (c : Char) :
    (location.after c).line = location.line + if c = '\n' then 1 else 0 := by
  rw [after]
  split <;> rfl

/-- Every line break before an offset begins a line. -/
theorem line_advance (location : Location) (bytes : Nat) (chars : List Char) :
    (location.advance bytes chars).line =
      location.line + lineBreaks ((layout chars).take bytes) := by
  induction chars generalizing location bytes with
  | nil => rw [advance, Cell.layout_nil, List.take_nil]; rfl
  | cons c rest ih =>
    rw [advance, Cell.layout_cons]
    split
    · next hle =>
      have hchar : (Cell.ofChar c).take bytes = Cell.ofChar c :=
        List.take_of_length_le (by rwa [Cell.ofChar_length])
      rw [ih, line_after, List.take_append, Cell.lineBreaks_append, Cell.ofChar_length, hchar,
        Cell.lineBreaks_ofChar, Nat.add_assoc]
    · next hlt =>
      rw [List.take_append_of_le_length (by rw [Cell.ofChar_length]; omega)]
      by_cases hc : c = '\n'
      · subst hc
        obtain rfl : bytes = 0 := by
          have : '\n'.utf8Size = 1 := rfl
          omega
        rfl
      · rw [Cell.lineBreaks_eq_zero hc fun _ hm => List.mem_of_mem_take hm, Nat.add_zero]

end Location

theorem line_locate (text : String) (offset : Nat) :
    (locate text offset).line = 1 + lineBreaks ((layout text.toList).take offset) :=
  Location.line_advance ..

namespace Mask

theorem isLineBreak_blank (c : Char) :
    (layout (blank c)).map Cell.isLineBreak = (Cell.ofChar c).map Cell.isLineBreak := by
  rw [blank]
  split
  · next hc =>
    subst hc
    rfl
  · next hc =>
    have hchar : (Cell.ofChar c).map Cell.isLineBreak = List.replicate c.utf8Size false := by
      rw [List.eq_replicate_iff, List.length_map, Cell.ofChar_length]
      refine ⟨rfl, fun b hb => ?_⟩
      obtain ⟨cell, hm, rfl⟩ := List.mem_map.1 hb
      rw [Cell.isLineBreak_of_mem_ofChar hm, decide_eq_false hc]
    rw [hchar]
    generalize c.utf8Size = count
    induction count with
    | zero => rfl
    | succ count ih =>
      rw [List.replicate_succ, List.replicate_succ, Cell.layout_cons, List.map_append, ih]
      rfl

theorem isLineBreak_runFrom (mode : Mode) (chars : List Char) :
    (layout (runFrom mode chars)).map Cell.isLineBreak =
      (layout chars).map Cell.isLineBreak := by
  induction chars generalizing mode with
  | nil => rfl
  | cons c rest ih =>
    rw [runFrom]
    simp only
    rw [Cell.layout_append, Cell.layout_cons, List.map_append, List.map_append, ih]
    congr 1
    split
    · exact congrArg _ (List.append_nil _)
    · exact isLineBreak_blank c

theorem lineBreaks_take_runFrom (mode : Mode) (chars : List Char) (count : Nat) :
    lineBreaks ((layout (runFrom mode chars)).take count) =
      lineBreaks ((layout chars).take count) := by
  have hcount (cells : List Cell) :
      lineBreaks (cells.take count) = ((cells.map Cell.isLineBreak).take count).countP id := by
    rw [← List.map_take, List.countP_map]
    rfl
  rw [hcount, hcount, isLineBreak_runFrom]

end Mask

/-- The line of an offset can be told from the masked text. -/
theorem Source.line_locate (text : String) (offset : Nat) :
    ((ofString text).locate offset).line =
      1 + lineBreaks ((ofString text).masked.take offset) := by
  rw [locate, CodeOutline.line_locate]
  exact congrArg (1 + ·) (Mask.lineBreaks_take_runFrom ..).symm

end CodeOutline
