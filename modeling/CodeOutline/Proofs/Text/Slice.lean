import CodeOutline.Text.Slice

namespace CodeOutline.Slice

variable {test : Cell → Bool} {left middle right : List Cell} {position : Nat}

@[simp] theorem stop_mk (position : Nat) (cells : List Cell) :
    (Slice.mk position cells).stop = position + cells.length :=
  rfl

@[simp] theorem text_mk (position : Nat) (cells : List Cell) :
    (Slice.mk position cells).text = Cell.text cells :=
  rfl

theorem drop_append (position : Nat) (left right : List Cell) :
    (Slice.mk position (left ++ right)).drop left.length = ⟨position + left.length, right⟩ := by
  rw [drop, List.drop_left]

theorem fromOffset_append (position : Nat) (left right : List Cell) :
    (Slice.mk position (left ++ right)).fromOffset (position + left.length) =
      ⟨position + left.length, right⟩ := by
  simp only [fromOffset, Nat.add_sub_cancel_left, List.drop_left]

theorem toOffset_append (position : Nat) (left right : List Cell) :
    (Slice.mk position (left ++ right)).toOffset (position + left.length) = ⟨position, left⟩ := by
  simp only [toOffset, take, Nat.add_sub_cancel_left, List.take_left]

theorem fromOffset_start (slice : Slice) : slice.fromOffset slice.start = slice := by
  simp only [fromOffset, Nat.sub_self, List.drop_zero]

theorem takeWhile_append_of_all (h : ∀ cell ∈ left, test cell)
    (hr : ∀ cell, right.head? = some cell → test cell = false) :
    (left ++ right).takeWhile test = left := by
  rw [List.takeWhile_append_of_pos h]
  cases right with
  | nil => simp
  | cons cell rest => rw [List.takeWhile_cons_of_neg (by simp [hr cell rfl]), List.append_nil]

theorem drop_run (h : ∀ cell ∈ left, test cell)
    (hr : ∀ cell, right.head? = some cell → test cell = false) :
    (Slice.mk position (left ++ right)).drop ((Slice.mk position (left ++ right)).run test) =
      ⟨position + left.length, right⟩ := by
  rw [run, takeWhile_append_of_all h hr, drop_append]

theorem cells_drop_run (test : Cell → Bool) (slice : Slice) :
    (slice.drop (slice.run test)).cells = slice.cells.dropWhile test := by
  have hdrop : (slice.cells.takeWhile test ++ slice.cells.dropWhile test).drop
      (slice.cells.takeWhile test).length = slice.cells.dropWhile test := List.drop_left
  rwa [List.takeWhile_append_dropWhile] at hdrop

theorem takeWhile_append_drop_run (test : Cell → Bool) (slice : Slice) :
    slice.cells = slice.cells.takeWhile test ++ (slice.drop (slice.run test)).cells := by
  rw [cells_drop_run, List.takeWhile_append_dropWhile]

theorem skipBlank_append (h : ∀ cell ∈ left, cell.isBlank)
    (hr : ∀ cell, right.head? = some cell → cell.isBlank = false) :
    (Slice.mk position (left ++ right)).skipBlank = ⟨position + left.length, right⟩ :=
  drop_run h hr

theorem skipSpace_append (h : ∀ cell ∈ left, cell.within CharClass.isSpace)
    (hr : ∀ cell, right.head? = some cell → cell.within CharClass.isSpace = false) :
    (Slice.mk position (left ++ right)).skipSpace = ⟨position + left.length, right⟩ :=
  drop_run h hr

theorem startsWith_cons {c : Char} {cell : Cell} (rest : List Cell) :
    (Slice.mk position (cell :: rest)).startsWith c = cell.isAscii c :=
  rfl

theorem trim_of_blank (h : ∀ cell ∈ left, cell.isBlank) :
    (Slice.mk position left).trim = ⟨position + left.length, []⟩ := by
  have hs : (Slice.mk position (left ++ [])).skipBlank = ⟨position + left.length, []⟩ :=
    skipBlank_append h (by simp)
  rw [List.append_nil] at hs
  simp only [trim, hs, List.reverse_nil, List.dropWhile_nil]

theorem trim_append (hl : ∀ cell ∈ left, cell.isBlank) (hr : ∀ cell ∈ right, cell.isBlank)
    (hh : ∀ cell, middle.head? = some cell → cell.isBlank = false)
    (ht : ∀ cell, middle.getLast? = some cell → cell.isBlank = false) (hm : middle ≠ []) :
    (Slice.mk position (left ++ (middle ++ right))).trim = ⟨position + left.length, middle⟩ := by
  have hs : (Slice.mk position (left ++ (middle ++ right))).skipBlank =
      ⟨position + left.length, middle ++ right⟩ := by
    apply skipBlank_append hl
    intro cell hc
    cases middle with
    | nil => exact absurd rfl hm
    | cons first rest => exact hh cell hc
  have hd : (right.reverse ++ middle.reverse).dropWhile Cell.isBlank = middle.reverse := by
    rw [List.dropWhile_append_of_pos (by simpa using hr)]
    cases hc : middle.reverse with
    | nil => rfl
    | cons cell rest =>
      have hlast : middle.getLast? = some cell := by rw [List.getLast?_eq_head?_reverse, hc]; rfl
      rw [List.dropWhile_cons_of_neg (by simp [ht cell hlast])]
  simp only [trim, hs, List.reverse_append, hd, List.reverse_reverse]

end CodeOutline.Slice
