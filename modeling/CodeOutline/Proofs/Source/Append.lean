import CodeOutline.Proofs.Delimiter.Concluded
import CodeOutline.Proofs.Source.Mask
import CodeOutline.Proofs.Text.Aligned
import CodeOutline.Proofs.Text.Location

namespace CodeOutline

open Cell (layout lineBreaks width)

namespace Location

/-- The location in a text with more lines before it. -/
def shift (lines : Nat) (location : Location) : Location :=
  ⟨location.line + lines, location.column⟩

theorem after_shift (lines : Nat) (location : Location) (c : Char) :
    (location.shift lines).after c = (location.after c).shift lines := by
  simp only [after, shift]
  split
  · exact congrArg (Location.mk · 0) (Nat.add_right_comm ..)
  · rfl

theorem advance_shift (lines : Nat) (location : Location) (bytes : Nat) (chars : List Char) :
    (location.shift lines).advance bytes chars = (location.advance bytes chars).shift lines := by
  induction chars generalizing location bytes with
  | nil => rfl
  | cons c rest ih =>
    rw [advance, advance, after_shift, ih]
    split <;> rfl

theorem utf8Size_pos (c : Char) : 0 < c.utf8Size := by
  rw [← Cell.ofChar_length]
  obtain ⟨_, _, h, _⟩ := Cell.ofChar_eq_cons c
  rw [h, List.length_cons]
  exact Nat.succ_pos _

theorem advance_append_of_le {bytes : Nat} {left : List Char} (h : bytes ≤ width left)
    (location : Location) (right : List Char) :
    location.advance bytes (left ++ right) = location.advance bytes left := by
  induction left generalizing location bytes with
  | nil =>
    cases right with
    | nil => rfl
    | cons c rest =>
      have := utf8Size_pos c
      rw [Cell.width_nil] at h
      rw [List.nil_append, advance, advance, if_neg (by omega)]
  | cons c rest ih =>
    rw [Cell.width_cons, Cell.ofChar_length] at h
    rw [List.cons_append, advance, advance]
    split
    · exact ih (by omega) _
    · rfl

theorem advance_append (location : Location) (bytes : Nat) (left right : List Char) :
    location.advance (width left + bytes) (left ++ right) =
      (location.advance (width left) left).advance bytes right := by
  induction left generalizing location with
  | nil => rw [Cell.width_nil, Nat.zero_add]; rfl
  | cons c rest ih =>
    rw [Cell.width_cons, Cell.ofChar_length, List.cons_append, advance, advance,
      if_pos (by omega), if_pos (by omega), Nat.add_sub_cancel_left, ← ih]
    congr 1
    omega

theorem advance_lineBreak {chars : List Char} (h : chars.getLast? = some '\n')
    (location : Location) :
    location.advance (width chars) chars = ⟨location.line + chars.count '\n', 0⟩ := by
  have hline := line_advance location (width chars) chars
  rw [width, List.take_length, Cell.lineBreaks_layout] at hline
  have hcolumn : (location.advance (width chars) chars).column = 0 := by
    clear hline
    induction chars generalizing location with
    | nil => cases h
    | cons c rest ih =>
      rw [Cell.width_cons, Cell.ofChar_length, advance, if_pos (Nat.le_add_right ..),
        Nat.add_sub_cancel_left]
      cases rest with
      | nil =>
        obtain rfl : c = '\n' := Option.some.inj h
        rfl
      | cons d more => exact ih (by rwa [List.getLast?_cons_cons] at h) _
  rw [← hline, ← hcolumn]
  rfl

end Location

variable {left right : String} {offset : Nat}

theorem locate_append_of_le (h : offset ≤ left.utf8ByteSize) :
    locate (left ++ right) offset = locate left offset := by
  rw [locate, locate, String.toList_append]
  exact Location.advance_append_of_le (by rwa [Cell.width_toList]) _ _

theorem locate_append (h : left.toList.getLast? = some '\n') (offset : Nat) :
    locate (left ++ right) (left.utf8ByteSize + offset) =
      (locate right offset).shift (left.toList.count '\n') := by
  rw [locate, locate, String.toList_append, ← Cell.width_toList, Location.advance_append,
    Location.advance_lineBreak h, ← Location.advance_shift]
  rfl

namespace Source

/-- The second text is masked as if it stood alone. -/
theorem masked_append (h : left.toList.getLast? = some '\n') {lineStart : Bool}
    (hm : Mask.modeAfter (.code true) left.toList = .code lineStart) :
    (ofString (left ++ right)).masked = (ofString left).masked ++ (ofString right).masked := by
  obtain rfl := Mask.lineStart_modeAfter h (Mask.ready_code true _) hm
  simp only [ofString, String.toList_append, Mask.chars]
  rw [Mask.runFrom_append h, hm, Cell.layout_append]

theorem length_masked (text : String) : (ofString text).masked.length = text.utf8ByteSize := by
  have hstop := stop_view text
  rwa [view, Slice.stop_mk, Nat.zero_add] at hstop

theorem length_cells (text : String) : (ofString text).cells.length = text.utf8ByteSize :=
  Cell.width_toList text

theorem cells_append (left right : String) :
    (ofString (left ++ right)).cells = (ofString left).cells ++ (ofString right).cells := by
  simp only [ofString, String.toList_append, Cell.layout_append]

theorem quote_append_of_le {slice : Slice} (h : slice.stop ≤ left.utf8ByteSize) :
    (ofString (left ++ right)).quote slice = (ofString left).quote slice := by
  rw [Slice.stop] at h
  rw [quote, quote, cells_append, List.drop_append_of_le_length (by rw [length_cells]; omega),
    List.take_append_of_le_length (by rw [List.length_drop, length_cells]; omega)]

theorem quote_append {slice slice' : Slice} (hs : slice'.start = left.utf8ByteSize + slice.start)
    (hc : slice'.cells = slice.cells) :
    (ofString (left ++ right)).quote slice' = (ofString right).quote slice := by
  rw [quote, quote, cells_append, hs, hc, ← length_cells left, List.drop_length_add_append]

end Source

end CodeOutline
