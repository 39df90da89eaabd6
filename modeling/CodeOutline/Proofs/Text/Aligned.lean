import CodeOutline.Proofs.Related
import CodeOutline.Proofs.Text.Part

namespace CodeOutline

namespace Cell

def lineBreak : Cell :=
  ⟨0x0A, some '\n'⟩

/-- A blank that may be put in before a line break. -/
inductive IsPadding : Cell → Prop where
  | space : IsPadding ⟨0x20, some ' '⟩
  | carriageReturn : IsPadding ⟨0x0D, some '\r'⟩

/-- The second text holds the cells of the first one and, if `padded`, blanks before line breaks.
What stands at a position of the first text stands where `move` takes it in the second one. -/
inductive Aligned (padded : Prop) (move : Nat → Nat) : Nat → List Cell → List Cell → Prop where
  | nil (position : Nat) : Aligned padded move position [] []
  | cons {position : Nat} {left right : List Cell} (cell : Cell)
      (hm : move (position + 1) = move position + 1)
      (h : Aligned padded move (position + 1) left right) :
      Aligned padded move position (cell :: left) (cell :: right)
  | pad {position : Nat} {left right : List Cell} {blank : Cell} (hp : padded)
      (hb : IsPadding blank) (hm : move (position + 1) = move position + 2)
      (h : Aligned padded move (position + 1) left right) :
      Aligned padded move position (lineBreak :: left) (blank :: lineBreak :: right)

/-- A test that takes a line break for what may stand before it. -/
def Steady (test : Cell → Bool) : Prop :=
  ∀ blank, IsPadding blank → test blank = test lineBreak

theorem steady_isBlank : Steady isBlank := by
  rintro _ (_ | _) <;> rfl

theorem steady_isSpace : Steady (within CharClass.isSpace) := by
  rintro _ (_ | _) <;> rfl

theorem steady_isWord : Steady (within CharClass.isWord) := by
  rintro _ (_ | _) <;> rfl

namespace Aligned

variable {padded : Prop} {move : Nat → Nat} {position count : Nat} {left right : List Cell}

theorem append_same {cells : List Cell}
    (hm : ∀ count ≤ cells.length, move (position + count) = move position + count)
    (h : Aligned padded move (position + cells.length) left right) :
    Aligned padded move position (cells ++ left) (cells ++ right) := by
  induction cells generalizing position with
  | nil => exact h
  | cons cell cells ih =>
    have hone := hm 1 (by rw [List.length_cons]; omega)
    refine .cons cell hone (ih (fun count hc => ?_) ?_)
    · have hnext := hm (1 + count) (by rw [List.length_cons]; omega)
      rw [← Nat.add_assoc] at hnext
      rw [hnext, hone, Nat.add_assoc]
    · rwa [Nat.add_assoc, Nat.add_comm 1, ← List.length_cons]

theorem same {cells : List Cell}
    (hm : ∀ count ≤ cells.length, move (position + count) = move position + count) :
    Aligned padded move position cells cells := by
  have hnil : Aligned padded move (position + cells.length) [] [] := .nil _
  have hsame := append_same hm hnil
  rwa [List.append_nil] at hsame

theorem move_length (h : Aligned padded move position left right) :
    move (position + left.length) = move position + right.length := by
  induction h with
  | nil => rfl
  | @cons position left right _ hm _ ih =>
    rw [List.length_cons, List.length_cons, Nat.add_comm left.length, ← Nat.add_assoc, ih, hm]
    omega
  | @pad position left right _ _ _ hm _ ih =>
    rw [List.length_cons, List.length_cons, List.length_cons, Nat.add_comm left.length,
      ← Nat.add_assoc, ih, hm]
    omega

theorem eq_nil_iff (h : Aligned padded move position left right) : left = [] ↔ right = [] := by
  cases h <;> simp

/-- Aligned texts can be cut anywhere. -/
theorem split (h : Aligned padded move position left right) (hle : count ≤ left.length) :
    ∃ front back, right = front ++ back ∧
      Aligned padded move position (left.take count) front ∧
      Aligned padded move (position + count) (left.drop count) back := by
  induction h generalizing count with
  | nil =>
    rw [List.length_nil] at hle
    cases Nat.eq_zero_of_le_zero hle
    exact ⟨[], [], rfl, .nil _, .nil _⟩
  | @cons position left right cell hm h ih =>
    cases count with
    | zero => exact ⟨[], cell :: right, rfl, .nil _, .cons cell hm h⟩
    | succ count =>
      obtain ⟨front, back, rfl, hf, hb⟩ := ih (Nat.le_of_succ_le_succ hle)
      rw [List.take_succ_cons, List.drop_succ_cons, Nat.add_comm count, ← Nat.add_assoc]
      exact ⟨cell :: front, back, rfl, .cons cell hm hf, hb⟩
  | @pad position left right blank hp hblank hm h ih =>
    cases count with
    | zero => exact ⟨[], blank :: lineBreak :: right, rfl, .nil _, .pad hp hblank hm h⟩
    | succ count =>
      obtain ⟨front, back, rfl, hf, hb⟩ := ih (Nat.le_of_succ_le_succ hle)
      rw [List.take_succ_cons, List.drop_succ_cons, Nat.add_comm count, ← Nat.add_assoc]
      exact ⟨blank :: lineBreak :: front, back, rfl, .pad hp hblank hm hf, hb⟩

theorem append_left {rest : List Cell} (h : Aligned padded move position (left ++ rest) right) :
    ∃ front back, right = front ++ back ∧ Aligned padded move position left front ∧
      Aligned padded move (position + left.length) rest back := by
  have hle : left.length ≤ (left ++ rest).length := by
    rw [List.length_append]
    exact Nat.le_add_right ..
  obtain ⟨front, back, he, hf, hb⟩ := h.split hle
  rw [List.take_left] at hf
  rw [List.drop_left] at hb
  exact ⟨front, back, he, hf, hb⟩

theorem exists_cons {cell : Cell} (h : Aligned padded move position (cell :: left) right)
    (hne : cell ≠ lineBreak) :
    ∃ rest, right = cell :: rest ∧ move (position + 1) = move position + 1 ∧
      Aligned padded move (position + 1) left rest := by
  cases h with
  | cons _ hm h => exact ⟨_, rfl, hm, h⟩
  | pad => exact absurd rfl hne

theorem eq (h : Aligned padded move position left right) (hn : ¬ padded ∨ lineBreak ∉ left) :
    left = right := by
  induction h with
  | nil => rfl
  | cons cell _ _ ih => rw [ih (hn.imp_right fun hn hm => hn (List.mem_cons_of_mem _ hm))]
  | pad hp =>
    rcases hn with hn | hn
    · exact absurd hp hn
    · exact absurd List.mem_cons_self hn

theorem chars_eq_nil_iff (h : Aligned padded move position left right) :
    chars left = [] ↔ chars right = [] := by
  induction h with
  | nil => rfl
  | cons cell _ _ ih =>
    cases hc : cell.char? with
    | none => simpa only [chars, List.filterMap_cons, hc] using ih
    | some c => simp [chars, hc]
  | pad _ hb => cases hb <;> simp [chars, lineBreak]

theorem lineBreak_mem (h : Aligned padded move position left right) (hm : lineBreak ∈ left) :
    lineBreak ∈ right := by
  induction h with
  | nil => exact hm
  | cons cell _ _ ih =>
    rcases List.mem_cons.1 hm with he | hm
    · exact List.mem_cons.2 (.inl he)
    · exact List.mem_cons_of_mem _ (ih hm)
  | pad => exact List.mem_cons_of_mem _ List.mem_cons_self

/-- Of the cells that pass a steady test at the start, the last ones stand at one place. -/
theorem move_takeWhile {test : Cell → Bool} (ht : Steady test)
    (h : Aligned padded move position left right) :
    move (position + (left.takeWhile test).length) =
      move position + (right.takeWhile test).length := by
  induction h with
  | nil => rfl
  | @cons position left right cell hm _ ih =>
    by_cases hc : test cell
    · rw [List.takeWhile_cons_of_pos hc, List.takeWhile_cons_of_pos hc, List.length_cons,
        List.length_cons, Nat.add_comm (left.takeWhile test).length, ← Nat.add_assoc, ih, hm]
      omega
    · rw [List.takeWhile_cons_of_neg hc, List.takeWhile_cons_of_neg hc]
      rfl
  | @pad position left right blank _ hb hm _ ih =>
    have hblank := ht blank hb
    by_cases hc : test lineBreak
    · rw [hc] at hblank
      rw [List.takeWhile_cons_of_pos hc, List.takeWhile_cons_of_pos hblank,
        List.takeWhile_cons_of_pos hc, List.length_cons, List.length_cons, List.length_cons,
        Nat.add_comm (left.takeWhile test).length, ← Nat.add_assoc, ih, hm]
      omega
    · rw [List.takeWhile_cons_of_neg hc, List.takeWhile_cons_of_neg (by rwa [hblank])]
      rfl

theorem takeWhile_eq {test : Cell → Bool} (ht : Steady test) (hn : test lineBreak = false)
    (h : Aligned padded move position left right) :
    left.takeWhile test = right.takeWhile test := by
  induction h with
  | nil => rfl
  | cons cell _ _ ih => rw [List.takeWhile_cons, List.takeWhile_cons, ih]
  | pad _ hb =>
    rw [List.takeWhile_cons_of_neg (by rw [hn]; exact Bool.false_ne_true),
      List.takeWhile_cons_of_neg (by rw [ht _ hb, hn]; exact Bool.false_ne_true)]

theorem dropWhile_reverse_cons (test : Cell → Bool) (cell : Cell) (cells : List Cell) :
    ((cell :: cells).reverse.dropWhile test).reverse =
      if (cells.reverse.dropWhile test).reverse = [] then [cell].dropWhile test
      else cell :: (cells.reverse.dropWhile test).reverse := by
  simp only [List.reverse_cons, List.dropWhile_append, List.isEmpty_iff, List.reverse_eq_nil_iff]
  split
  · by_cases hc : test cell
    · rw [List.dropWhile_cons_of_pos hc]
      rfl
    · rw [List.dropWhile_cons_of_neg hc]
      rfl
  · rw [List.reverse_append]
    rfl

theorem dropWhile_reverse (h : Aligned padded move position left right) :
    Aligned padded move position (left.reverse.dropWhile isBlank).reverse
      (right.reverse.dropWhile isBlank).reverse := by
  induction h with
  | nil => exact .nil _
  | cons cell hm _ ih =>
    rw [dropWhile_reverse_cons, dropWhile_reverse_cons]
    split
    · next hl =>
      rw [if_pos (ih.eq_nil_iff.1 hl)]
      by_cases hc : cell.isBlank
      · rw [List.dropWhile_cons_of_pos hc]
        exact .nil _
      · rw [List.dropWhile_cons_of_neg hc]
        exact .cons cell hm (.nil _)
    · next hl =>
      rw [if_neg (mt ih.eq_nil_iff.2 hl)]
      exact .cons cell hm ih
  | @pad position left right blank hp hb hm _ ih =>
    have hblank : blank.isBlank := (steady_isBlank blank hb).trans rfl
    rw [dropWhile_reverse_cons, dropWhile_reverse_cons, dropWhile_reverse_cons]
    split
    · next hl =>
      rw [if_pos (ih.eq_nil_iff.1 hl)]
      rw [List.dropWhile_cons_of_pos (show lineBreak.isBlank from rfl), List.dropWhile_nil,
        if_pos rfl, List.dropWhile_cons_of_pos hblank]
      exact .nil _
    · next hl =>
      rw [if_neg (mt ih.eq_nil_iff.2 hl), if_neg (List.cons_ne_nil _ _)]
      exact .pad hp hb hm ih

end Aligned

end Cell

namespace Slice

/-- Slices at the place of each other in aligned texts. -/
structure Aligned (padded : Prop) (move : Nat → Nat) (slice slice' : Slice) : Prop where
  start_eq : slice'.start = move slice.start
  cells : Cell.Aligned padded move slice.start slice.cells slice'.cells

theorem isEmpty_fromOffset {slice : Slice} {offset : Nat} (hs : slice.start ≤ offset)
    (hle : offset ≤ slice.stop) : (slice.fromOffset offset).isEmpty ↔ offset = slice.stop := by
  rw [stop] at hle ⊢
  rw [isEmpty, fromOffset, List.isEmpty_iff, List.drop_eq_nil_iff]
  omega

/-- The same cells at the place of each other. -/
structure Matches (move : Nat → Nat) (slice slice' : Slice) : Prop where
  start_eq : slice'.start = move slice.start
  cells_eq : slice'.cells = slice.cells

theorem Matches.text_eq {move : Nat → Nat} {slice slice' : Slice} (h : Matches move slice slice') :
    slice'.text = slice.text := by
  rw [text, text, h.cells_eq]

namespace Aligned

variable {padded : Prop} {move : Nat → Nat} {slice slice' : Slice} {offset : Nat}

theorem stop_eq (h : Aligned padded move slice slice') : slice'.stop = move slice.stop := by
  rw [stop, stop, h.start_eq, h.cells.move_length]

theorem fromOffset (h : Aligned padded move slice slice') (hs : slice.start ≤ offset)
    (hle : offset ≤ slice.stop) :
    Aligned padded move (slice.fromOffset offset) (slice'.fromOffset (move offset)) := by
  obtain ⟨count, rfl⟩ := Nat.exists_eq_add_of_le hs
  obtain ⟨front, back, hc, hf, hb⟩ := h.cells.split (Nat.add_le_add_iff_left.1 hle)
  have hlength := hf.move_length
  rw [List.length_take, Nat.min_eq_left (Nat.add_le_add_iff_left.1 hle)] at hlength
  refine ⟨rfl, ?_⟩
  simp only [Slice.fromOffset, h.start_eq, hlength, Nat.add_sub_cancel_left, hc, List.drop_left]
  exact hb

theorem toOffset (h : Aligned padded move slice slice') (hs : slice.start ≤ offset)
    (hle : offset ≤ slice.stop) :
    Aligned padded move (slice.toOffset offset) (slice'.toOffset (move offset)) := by
  obtain ⟨count, rfl⟩ := Nat.exists_eq_add_of_le hs
  obtain ⟨front, back, hc, hf, hb⟩ := h.cells.split (Nat.add_le_add_iff_left.1 hle)
  have hlength := hf.move_length
  rw [List.length_take, Nat.min_eq_left (Nat.add_le_add_iff_left.1 hle)] at hlength
  refine ⟨h.start_eq, ?_⟩
  simp only [Slice.toOffset, take, h.start_eq, hlength, Nat.add_sub_cancel_left, hc, List.take_left]
  exact hf

theorem isEmpty_eq (h : Aligned padded move slice slice') : slice'.isEmpty = slice.isEmpty := by
  rw [Bool.eq_iff_iff, Slice.isEmpty, Slice.isEmpty, List.isEmpty_iff, List.isEmpty_iff]
  exact h.cells.eq_nil_iff.symm

theorem text_eq (h : Aligned padded move slice slice') (hn : ¬ padded) :
    slice'.text = slice.text := by
  rw [text, text, h.cells.eq (.inl hn)]

theorem text_isEmpty_eq (h : Aligned padded move slice slice') :
    slice'.text.isEmpty = slice.text.isEmpty := by
  rw [Bool.eq_iff_iff, String.isEmpty_iff, String.isEmpty_iff, text, text, Cell.text, Cell.text,
    String.ofList_eq_empty_iff, String.ofList_eq_empty_iff]
  exact h.cells.chars_eq_nil_iff.symm

theorem startsWith_eq (h : Aligned padded move slice slice') {c : Char}
    (hc : Cell.Steady (·.isAscii c)) : slice'.startsWith c = slice.startsWith c := by
  obtain ⟨start, cells⟩ := slice
  obtain ⟨start', cells'⟩ := slice'
  obtain ⟨_, h⟩ := h
  cases h with
  | nil => rfl
  | cons => rfl
  | pad _ hb => exact hc _ hb

theorem drop_run {test : Cell → Bool} (ht : Cell.Steady test)
    (h : Aligned padded move slice slice') :
    Aligned padded move (slice.drop (slice.run test)) (slice'.drop (slice'.run test)) := by
  have hle := length_takeWhile_le test slice.cells
  have hf := h.fromOffset (Nat.le_add_right slice.start (slice.run test))
    (Nat.add_le_add_left hle _)
  have hmove : move (slice.start + slice.run test) = slice'.start + slice'.run test := by
    rw [h.start_eq]
    exact h.cells.move_takeWhile ht
  simp only [Slice.fromOffset, hmove, Nat.add_sub_cancel_left] at hf
  exact hf

theorem skipBlank (h : Aligned padded move slice slice') :
    Aligned padded move slice.skipBlank slice'.skipBlank :=
  h.drop_run Cell.steady_isBlank

theorem skipSpace (h : Aligned padded move slice slice') :
    Aligned padded move slice.skipSpace slice'.skipSpace :=
  h.drop_run Cell.steady_isSpace

theorem trim (h : Aligned padded move slice slice') :
    Aligned padded move slice.trim slice'.trim :=
  ⟨h.skipBlank.start_eq, h.skipBlank.cells.dropWhile_reverse⟩

theorem drop_one (h : Aligned padded move slice slice') {c : Char} (hs : slice.startsWith c)
    (hc : Cell.lineBreak.isAscii c = false) :
    Aligned padded move (slice.drop 1) (slice'.drop 1) := by
  obtain ⟨start, cells⟩ := slice
  obtain ⟨start', cells'⟩ := slice'
  obtain ⟨rfl, h⟩ := h
  cases h with
  | nil => cases hs
  | cons cell hm h => exact ⟨hm.symm, h⟩
  | pad => exact absurd (hc.symm.trans hs) Bool.false_ne_true

theorem word? (h : Aligned padded move slice slice') {cls : Char → Bool}
    (ht : Cell.Steady (Cell.within cls)) (hn : Cell.lineBreak.within cls = false) :
    Option.Rel (fun found found' => Matches move found.1 found'.1 ∧
      Aligned padded move found.2 found'.2) (slice.word? cls) (slice'.word? cls) := by
  obtain ⟨start, cells⟩ := slice
  obtain ⟨start', cells'⟩ := slice'
  obtain ⟨rfl, h⟩ := h
  cases h with
  | nil => exact .none
  | @cons _ left right cell hm h =>
    have hword := h.takeWhile_eq ht hn
    have hmove := h.move_takeWhile ht
    simp only [Slice.word?, ← hword] at hmove ⊢
    split
    · have hle := length_takeWhile_le (Cell.within cls) left
      have hrest := (Aligned.mk rfl (.cons cell hm h) : Aligned padded move ⟨start, cell :: left⟩
        ⟨move start, cell :: right⟩).fromOffset
          (Nat.le_add_right start (1 + (left.takeWhile (Cell.within cls)).length))
          (Nat.add_le_add_left (by rw [List.length_cons]; omega) _)
      have hlength : move (start + (1 + (left.takeWhile (Cell.within cls)).length)) =
          move start + (1 + (left.takeWhile (Cell.within cls)).length) := by
        rw [← Nat.add_assoc, hmove, hm, Nat.add_assoc]
      simp only [Slice.fromOffset, hlength, Nat.add_sub_cancel_left] at hrest
      have htake (rest : List Cell) : (cell :: rest).take
          (1 + (rest.takeWhile (Cell.within cls)).length) =
            cell :: rest.takeWhile (Cell.within cls) := by
        rw [Nat.add_comm, List.take_succ_cons,
          ← List.prefix_iff_eq_take.1 (List.takeWhile_prefix _)]
      refine .some ⟨⟨rfl, ?_⟩, hrest⟩
      simp only [Slice.take, htake left]
      rw [hword, htake right]
    · exact .none
  | pad _ hb h =>
    have hblank : ∀ blank, Cell.IsPadding blank → blank.begins CharClass.isWordStart = false := by
      rintro _ (_ | _) <;> rfl
    have hbreak : Cell.lineBreak.begins CharClass.isWordStart = false := rfl
    simp only [Slice.word?, hblank _ hb, hbreak, Bool.false_eq_true, if_false]
    exact .none

end Aligned

end Slice

end CodeOutline
