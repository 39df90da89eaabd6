import CodeOutline.Delimiter.Boundary
import CodeOutline.Delimiter.Split
import CodeOutline.Shape.Declarator
import Mathlib.Data.List.TakeWhile

namespace CodeOutline.Slice

/-- The cells of `part` stand in `whole` where `part` starts. -/
def IsPart (part whole : Slice) : Prop :=
  ∃ before after, whole.cells = before ++ (part.cells ++ after) ∧
    part.start = whole.start + before.length

/-- A part that reaches to the end. -/
def IsTail (tail whole : Slice) : Prop :=
  ∃ before, whole.cells = before ++ tail.cells ∧ tail.start = whole.start + before.length

variable {part whole slice tail : Slice} {offset : Nat}

theorem IsTail.isPart (h : IsTail tail whole) : IsPart tail whole := by
  obtain ⟨before, hc, hs⟩ := h
  exact ⟨before, [], by rw [List.append_nil, hc], hs⟩

theorem IsTail.refl (slice : Slice) : IsTail slice slice :=
  ⟨[], rfl, rfl⟩

theorem IsPart.refl (slice : Slice) : IsPart slice slice :=
  (IsTail.refl slice).isPart

theorem IsTail.trans (h : IsTail tail slice) (h' : IsTail slice whole) : IsTail tail whole := by
  obtain ⟨before, hc, hs⟩ := h
  obtain ⟨before', hc', hs'⟩ := h'
  refine ⟨before' ++ before, by rw [hc', hc, List.append_assoc], ?_⟩
  rw [hs, hs', List.length_append]
  omega

/-- Of two tails the one that starts later is a tail of the other. -/
theorem IsTail.of_le (h : IsTail tail whole) (h' : IsTail slice whole)
    (hle : slice.start ≤ tail.start) : IsTail tail slice := by
  obtain ⟨before, hc, hs⟩ := h
  obtain ⟨before', hc', hs'⟩ := h'
  have hlength := congrArg List.length (hc.symm.trans hc')
  rw [List.length_append, List.length_append] at hlength
  obtain ⟨middle, hm⟩ := List.suffix_of_suffix_length_le ⟨before, hc.symm⟩ ⟨before', hc'.symm⟩
    (by omega)
  have hmiddle := congrArg List.length hm
  rw [List.length_append] at hmiddle
  exact ⟨middle, hm.symm, by omega⟩

theorem IsTail.eq (h : IsTail tail whole) (h' : IsTail slice whole)
    (hs : tail.start = slice.start) : tail = slice := by
  obtain ⟨before, hc, hstart⟩ := h.of_le h' (Nat.le_of_eq hs.symm)
  cases List.eq_nil_of_length_eq_zero (show before.length = 0 by omega)
  obtain ⟨start, cells⟩ := tail
  obtain ⟨start', cells'⟩ := slice
  cases hs
  cases hc
  rfl

theorem IsPart.trans (h : IsPart part slice) (h' : IsPart slice whole) : IsPart part whole := by
  obtain ⟨before, after, hc, hs⟩ := h
  obtain ⟨before', after', hc', hs'⟩ := h'
  refine ⟨before' ++ before, after ++ after', by simp only [hc', hc, List.append_assoc], ?_⟩
  rw [hs, hs', List.length_append]
  omega

theorem IsPart.start_le (h : IsPart part whole) : whole.start ≤ part.start := by
  obtain ⟨_, _, _, hs⟩ := h
  omega

theorem IsPart.stop_le (h : IsPart part whole) : part.stop ≤ whole.stop := by
  obtain ⟨before, after, hc, hs⟩ := h
  simp only [stop, hc, hs, List.length_append]
  omega

/-- Of two parts the one that lies in the bounds of the other is a part of it. -/
theorem IsPart.of_le (h : IsPart part whole) (h' : IsPart slice whole)
    (hs : slice.start ≤ part.start) (hl : part.stop ≤ slice.stop) : IsPart part slice := by
  obtain ⟨before, after, hc, hstart⟩ := h
  obtain ⟨before', after', hc', hstart'⟩ := h'
  simp only [stop] at hl
  have hp : before ++ part.cells <+: whole.cells := ⟨after, by rw [hc, List.append_assoc]⟩
  have hp' : before' ++ slice.cells <+: whole.cells := ⟨after', by rw [hc', List.append_assoc]⟩
  obtain ⟨middle, rfl⟩ := List.prefix_of_prefix_length_le ((List.prefix_append ..).trans hp')
    ((List.prefix_append ..).trans hp) (by omega)
  obtain ⟨rest, hr⟩ := List.prefix_of_prefix_length_le hp hp' (by
    simp only [List.length_append] at hstart ⊢
    omega)
  rw [List.append_assoc, List.append_assoc, List.append_cancel_left_eq] at hr
  refine ⟨middle, rest, hr.symm, ?_⟩
  rw [hstart, hstart', List.length_append, Nat.add_assoc]

theorem IsPart.subset (h : IsPart part whole) : part.cells ⊆ whole.cells := by
  obtain ⟨before, after, hc, _⟩ := h
  intro cell hm
  rw [hc]
  exact List.mem_append_right _ (List.mem_append_left _ hm)

theorem IsPart.length_le (h : IsPart part whole) : part.cells.length ≤ whole.cells.length := by
  obtain ⟨before, after, hc, _⟩ := h
  simp only [hc, List.length_append]
  omega

theorem IsTail.stop_eq (h : IsTail tail whole) : tail.stop = whole.stop := by
  obtain ⟨before, hc, hs⟩ := h
  simp only [stop, hc, hs, List.length_append]
  omega

theorem IsTail.mem_toOffset {cell : Cell} (h : IsTail tail slice) (hm : tail.cells.head? = some cell)
    (hlt : tail.start < offset) : cell ∈ (slice.toOffset offset).cells := by
  obtain ⟨before, hc, hs⟩ := h
  obtain ⟨rest, hr⟩ := List.head?_eq_some_iff.1 hm
  obtain ⟨count, hcount⟩ : ∃ count, offset - slice.start = before.length + (count + 1) :=
    ⟨offset - slice.start - before.length - 1, by omega⟩
  rw [toOffset, take, hcount, hc, hr, List.take_length_add_append]
  exact List.mem_append_right _ List.mem_cons_self

theorem start_le_stop (slice : Slice) : slice.start ≤ slice.stop :=
  Nat.le_add_right _ _

theorem IsPart.cells_eq (h : IsPart part whole) :
    (whole.cells.drop (part.start - whole.start)).take part.cells.length = part.cells := by
  obtain ⟨before, after, hc, hs⟩ := h
  rw [hc, hs, Nat.add_sub_cancel_left, List.drop_left, List.take_left]

theorem isTail_drop {count : Nat} (h : count ≤ slice.cells.length) :
    IsTail (slice.drop count) slice := by
  refine ⟨slice.cells.take count, (List.take_append_drop ..).symm, ?_⟩
  rw [drop, List.length_take, Nat.min_eq_left h]

theorem isTail_fromOffset (h : slice.start ≤ offset) (h' : offset ≤ slice.stop) :
    IsTail (slice.fromOffset offset) slice := by
  have hs : slice.fromOffset offset = slice.drop (offset - slice.start) := by
    rw [fromOffset, drop, Nat.add_sub_cancel' h]
  rw [hs]
  rw [stop] at h'
  exact isTail_drop (by omega)

theorem isPart_take (slice : Slice) (count : Nat) : IsPart (slice.take count) slice :=
  ⟨[], slice.cells.drop count, (List.take_append_drop ..).symm, rfl⟩

theorem isPart_toOffset (slice : Slice) (offset : Nat) : IsPart (slice.toOffset offset) slice :=
  isPart_take slice _

theorem stop_toOffset_le (h : slice.start ≤ offset) : (slice.toOffset offset).stop ≤ offset := by
  simp only [stop, toOffset, take, List.length_take]
  omega

theorem length_toOffset (h : offset ≤ slice.stop) :
    (slice.toOffset offset).cells.length = offset - slice.start := by
  rw [stop] at h
  rw [toOffset, take, List.length_take]
  omega

theorem stop_toOffset (h : slice.start ≤ offset) (h' : offset ≤ slice.stop) :
    (slice.toOffset offset).stop = offset := by
  rw [stop, length_toOffset h']
  exact Nat.add_sub_cancel' h

theorem isTail_toOffset {start stop : Nat} (hs : whole.start ≤ start) (hle : start ≤ stop)
    (hstop : stop ≤ whole.stop) :
    IsTail ((whole.toOffset stop).fromOffset start) (whole.toOffset stop) := by
  refine isTail_fromOffset hs ?_
  rw [stop_toOffset (Nat.le_trans hs hle) hstop]
  exact hle

theorem isPart_between? {start stop : Nat} (h : whole.between? start stop = some part) :
    IsPart part whole := by
  obtain ⟨⟨hs, hle, hstop, _⟩, he⟩ := Option.ite_none_right_eq_some.1 h
  cases he
  exact (isTail_toOffset hs hle hstop).isPart.trans (isPart_toOffset ..)

theorem length_takeWhile_le (test : Cell → Bool) (cells : List Cell) :
    (cells.takeWhile test).length ≤ cells.length :=
  (List.takeWhile_sublist test).length_le

theorem isTail_skipBlank (slice : Slice) : IsTail slice.skipBlank slice :=
  isTail_drop (length_takeWhile_le ..)

theorem isTail_skipSpace (slice : Slice) : IsTail slice.skipSpace slice :=
  isTail_drop (length_takeWhile_le ..)

theorem IsTail.start_skipBlank_le {place : Nat} {cell : Cell} {rest : List Cell}
    (h : IsTail ⟨place, cell :: rest⟩ slice) (hb : cell.isBlank = false) :
    slice.skipBlank.start ≤ place := by
  obtain ⟨before, hc, hs⟩ := h
  have hrun : slice.run Cell.isBlank ≤ before.length := by
    rw [run, hc, List.takeWhile_append]
    split
    · simp [hb]
    · exact length_takeWhile_le ..
  simp only at hs
  rw [hs, skipBlank, drop]
  exact Nat.add_le_add_left hrun _

theorem isPart_trim (slice : Slice) : IsPart slice.trim slice := by
  have hp : IsPart slice.trim slice.skipBlank := by
    have hs := List.takeWhile_append_dropWhile (p := Cell.isBlank) (l := slice.skipBlank.cells.reverse)
    have hr := congrArg List.reverse hs
    rw [List.reverse_append, List.reverse_reverse] at hr
    exact ⟨[], _, hr.symm, rfl⟩
  exact hp.trans (isTail_skipBlank slice).isPart

theorem isTail_drop_one {c : Char} (h : slice.startsWith c) : IsTail (slice.drop 1) slice := by
  apply isTail_drop
  rw [startsWith] at h
  cases hc : slice.cells with
  | nil => rw [hc] at h; cases h
  | cons cell rest => exact Nat.le_add_left ..

/-- A word goes on as far as it can. -/
theorem word?_append {cls : Char → Bool} {name after : Slice}
    (h : slice.word? cls = some (name, after)) :
    ∃ first word rest, slice.cells = first :: (word ++ rest) ∧
      name = ⟨slice.start, first :: word⟩ ∧
      after = ⟨slice.start + (first :: word).length, rest⟩ ∧
      first.begins CharClass.isWordStart ∧ (∀ cell ∈ word, cell.within cls) ∧
      ∀ cell ∈ rest.head?, cell.within cls = false := by
  rw [word?] at h
  cases hc : slice.cells with
  | nil => rw [hc] at h; cases h
  | cons first rest =>
    rw [hc] at h
    simp only at h
    split at h
    · next hb =>
      have happend := List.takeWhile_append_dropWhile (p := Cell.within cls) (l := rest)
      have hlength : 1 + (rest.takeWhile (Cell.within cls)).length =
          (first :: rest.takeWhile (Cell.within cls)).length := Nat.add_comm ..
      have hcells : slice.cells =
          (first :: rest.takeWhile (Cell.within cls)) ++ rest.dropWhile (Cell.within cls) := by
        rw [List.cons_append, happend, hc]
      cases h
      refine ⟨first, _, _, by rw [happend], ?_, ?_, hb, fun cell hm => List.mem_takeWhile_imp hm, ?_⟩
      · rw [take, hlength, hcells, List.take_left]
      · rw [drop, hlength, hcells, List.drop_left]
      · intro cell hm
        have hhead := List.head?_dropWhile_not (Cell.within cls) rest
        rw [Option.mem_def.1 hm] at hhead
        exact hhead
    · cases h

theorem word?_spec {cls : Char → Bool} {name after : Slice}
    (h : slice.word? cls = some (name, after)) :
    IsPart name slice ∧ IsTail after slice ∧ name.start = slice.start ∧ name.stop = after.start ∧
      slice.start < after.start := by
  obtain ⟨first, word, rest, hc, rfl, rfl, _⟩ := word?_append h
  exact ⟨⟨[], rest, hc, rfl⟩, ⟨first :: word, hc, rfl⟩, rfl, rfl,
    Nat.lt_add_of_pos_right (Nat.succ_pos _)⟩

end CodeOutline.Slice

namespace CodeOutline.Delimiter

variable {opener closer terminator : UInt8} {depth position found : Nat} {cells : List Cell}

theorem closeFrom_bounds (h : closeFrom opener closer depth position cells = some found) :
    position ≤ found ∧ found < position + cells.length := by
  induction cells generalizing depth position with
  | nil => cases h
  | cons cell rest ih =>
    rw [closeFrom.eq_def] at h
    simp only [List.length_cons] at h ⊢
    split at h
    · have := ih h
      omega
    · split at h
      · split at h
        · cases h
          omega
        · have := ih h
          omega
      · have := ih h
        omega

theorem findFrom_bounds (h : findFrom terminator depth position cells = some found) :
    position ≤ found ∧ found < position + cells.length := by
  induction cells generalizing depth position with
  | nil => cases h
  | cons cell rest ih =>
    rw [findFrom.eq_def] at h
    simp only [List.length_cons] at h ⊢
    split at h
    · have := ih h
      omega
    · split at h
      · split at h
        · cases h
        · have := ih h
          omega
      · split at h
        · cases h
          omega
        · have := ih h
          omega

end CodeOutline.Delimiter

namespace CodeOutline.Slice

variable {slice inner after : Slice}

theorem close?_bounds {close : Nat} (h : slice.close? = some close) :
    slice.start < close ∧ close < slice.stop := by
  rw [close?] at h
  rw [stop]
  cases hc : slice.cells with
  | nil => rw [hc] at h; cases h
  | cons cell rest =>
    rw [hc] at h
    simp only [Option.bind_eq_some_iff] at h
    obtain ⟨closer, _, hf⟩ := h
    have := Delimiter.closeFrom_bounds hf
    rw [List.length_cons]
    omega

theorem find?_bounds {terminator : UInt8} {found : Nat} (h : slice.find? terminator = some found) :
    slice.start ≤ found ∧ found < slice.stop :=
  Delimiter.findFrom_bounds h

theorem block?_spec (h : slice.block? = some (inner, after)) :
    IsPart inner slice ∧ IsTail after slice ∧ slice.start < inner.start ∧
      inner.stop < after.start := by
  rw [block?, Option.map_eq_some_iff] at h
  obtain ⟨close, hc, he⟩ := h
  obtain ⟨hl, hr⟩ := close?_bounds hc
  cases he
  have hlen : (slice.toOffset close).cells.length = close - slice.start := by
    rw [toOffset, take, List.length_take]
    rw [stop] at hr
    omega
  refine ⟨(isTail_drop ?_).isPart.trans (isPart_toOffset ..), isTail_fromOffset ?_ ?_,
    Nat.lt_succ_self _, ?_⟩
  · omega
  · omega
  · omega
  · rw [stop, drop, List.length_drop, hlen]
    change slice.start + 1 + (close - slice.start - 1) < close + 1
    omega

theorem IsPart.eq_append {start : Nat} {left right : List Cell}
    (h : IsPart ⟨start, left⟩ ⟨start, right⟩) : ∃ after, right = left ++ after := by
  obtain ⟨before, after, hc, hs⟩ := h
  have hb : before = [] := List.eq_nil_of_length_eq_zero (Nat.left_eq_add.1 hs)
  exact ⟨after, by rw [hb] at hc; exact hc⟩

theorem isTail_cons (start : Nat) (cell : Cell) (rest : List Cell) :
    IsTail ⟨start + 1, rest⟩ ⟨start, cell :: rest⟩ :=
  ⟨[cell], rfl, rfl⟩

end CodeOutline.Slice
