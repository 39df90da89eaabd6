import CodeOutline.Proofs.Delimiter.Scan
import CodeOutline.Proofs.Text.Layout

namespace CodeOutline.Slice

open Delimiter

variable {tail slice whole inner after : Slice} {start : Nat} {pending : Bool}

/-- A tail in front of which the slice is nested. -/
def Follows (tail slice : Slice) : Prop :=
  ∃ before, slice.cells = before ++ tail.cells ∧ tail.start = slice.start + before.length ∧
    IsNested before

theorem Follows.isTail (h : Follows tail slice) : IsTail tail slice := by
  obtain ⟨before, hc, hs, _⟩ := h
  exact ⟨before, hc, hs⟩

theorem Follows.refl (slice : Slice) : Follows slice slice :=
  ⟨[], rfl, rfl, rfl⟩

theorem Follows.trans (h : Follows tail slice) (h' : Follows slice whole) : Follows tail whole := by
  obtain ⟨before, hc, hs, hn⟩ := h
  obtain ⟨before', hc', hs', hn'⟩ := h'
  refine ⟨before' ++ before, by rw [hc', hc, List.append_assoc], ?_, hn'.append hn⟩
  rw [hs, hs', List.length_append]
  omega

theorem Follows.isNested (h : Follows tail slice) (hs : IsNested slice.cells) :
    IsNested tail.cells := by
  obtain ⟨before, hc, _, hn⟩ := h
  rw [hc] at hs
  exact hs.of_append hn

/-- Whether a statement may begin at an offset of the slice; `pending` says whether one may begin
with its first byte that is not blank. -/
def Starts (pending : Bool) (slice : Slice) (start : Nat) : Prop :=
  start ∈ startsDue [] pending slice.start slice.cells

theorem starts_of_mem (h : start ∈ slice.statementStarts .topLevel) : Starts true slice start := by
  rwa [statementStarts_eq] at h

theorem Starts.bounds (h : Starts pending slice start) :
    slice.start ≤ start ∧ start < slice.stop :=
  ⟨le_of_mem_startsFrom h, lt_of_mem_startsFrom h⟩

theorem Follows.starts (h : Follows tail slice) (hs : Starts pending slice start)
    (hle : tail.start ≤ start) : ∃ pending, Starts pending tail start := by
  obtain ⟨before, hc, ht, hn⟩ := h
  obtain ⟨pending', happend⟩ := startsDue_append hn pending slice.start
  rw [Starts, hc, happend, List.mem_append] at hs
  rcases hs with hs | hs
  · have hb := lt_of_mem_startsFrom hs
    omega
  · rw [← ht] at hs
    exact ⟨pending', hs⟩

/-- A slice whose first byte is not blank. -/
def IsSolid (slice : Slice) : Prop :=
  ∃ cell rest, slice.cells = cell :: rest ∧ cell.isBlank = false

theorem Starts.follows (h : Starts true slice start) (hn : IsNested slice.cells) :
    Follows (slice.fromOffset start) slice ∧ IsSolid (slice.fromOffset start) := by
  obtain ⟨left, cell, right, hc, rfl, hl, hb⟩ := exists_of_mem_startsDue
    (fun byte hm => by cases hm) (fun _ => rfl) hn h
  have he : slice.fromOffset (slice.start + left.length) =
      ⟨slice.start + left.length, cell :: right⟩ := by
    rw [← fromOffset_append, ← hc]
  rw [he]
  exact ⟨⟨left, hc, rfl, hl⟩, cell, right, rfl, hb⟩

theorem follows_of_mem_heads {head : Slice} (hn : IsNested slice.cells)
    (h : head ∈ slice.heads .topLevel) : Follows head slice ∧ IsSolid head := by
  rw [heads, ← map_fromOffset_startsFrom, List.mem_map] at h
  obtain ⟨start, hs, rfl⟩ := h
  exact Starts.follows hs hn

/-- After its first byte a solid slice has the same starts whatever precedes it. -/
theorem IsSolid.starts (h : IsSolid slice) (hs : Starts pending slice start)
    (hne : start ≠ slice.start) (pending' : Bool) : Starts pending' slice start := by
  obtain ⟨cell, rest, hc, hb⟩ := h
  rw [Starts, startsDue, hc, startsFrom_cons, List.mem_append, hb, Bool.and_false] at hs ⊢
  refine .inr (hs.resolve_left ?_)
  split
  · exact fun hm => hne (List.mem_singleton.1 hm)
  · exact List.not_mem_nil

theorem starts_of_heads {left right : Slice} (hn : IsNested slice.cells)
    (hl : left ∈ slice.heads .topLevel) (hr : right ∈ slice.heads .topLevel)
    (hlt : left.start < right.start) : Starts false left right.start := by
  obtain ⟨hfollows, hsolid⟩ := follows_of_mem_heads hn hl
  obtain ⟨pending, hs⟩ := hfollows.starts (starts_of_mem (start_mem_of_mem_heads hr))
    (Nat.le_of_lt hlt)
  exact hsolid.starts hs (Nat.ne_of_gt hlt) false

/-- A text with no statement start in it or right behind it. -/
def IsQuiet (cells : List Cell) : Prop :=
  IsNested cells ∧ ∀ position rest, startsDue [] false position (cells ++ rest) =
    startsDue [] false (position + cells.length) rest

variable {cells left right : List Cell}

theorem IsQuiet.append (hl : IsQuiet left) (hr : IsQuiet right) : IsQuiet (left ++ right) := by
  refine ⟨hl.1.append hr.1, fun position rest => ?_⟩
  rw [List.append_assoc, hl.2, hr.2, List.length_append, Nat.add_assoc]

theorem isQuiet_of_inert (h : ∀ cell ∈ cells, isInert cell.byte ∧ cell.byte ≠ 0x3B) :
    IsQuiet cells := by
  refine ⟨isNested_of_inert fun cell hm => (h cell hm).1, fun position rest => ?_⟩
  rw [startsDue, startsDue, ← map_start_headsFrom, ← map_start_headsFrom,
    headsFrom_inert (by decide) h fun _ _ => rfl]

theorem isQuiet_parens {opening closing : Cell} (ho : opening.byte = 0x28)
    (hc : closing.byte = 0x29) (h : IsNested cells) :
    IsQuiet (opening :: (cells ++ [closing])) := by
  refine ⟨h.block (by rw [ho, hc]; rfl), fun position rest => ?_⟩
  have hl : position + (opening :: (cells ++ [closing])).length = position + cells.length + 2 := by
    rw [List.length_cons, List.length_append, List.length_singleton]
    omega
  rw [startsDue, startsDue, ← map_start_headsFrom, ← map_start_headsFrom, hl, List.cons_append,
    List.append_assoc, List.singleton_append]
  exact congrArg _ (headsFrom_parens ho hc h)

theorem startsDue_braces {opening closing : Cell} (ho : opening.byte = 0x7B)
    (hc : closing.byte = 0x7D) (h : IsNested cells) (position : Nat) (rest : List Cell) :
    startsDue [] false position (opening :: (cells ++ closing :: rest)) =
      startsDue [] true (position + cells.length + 2) rest := by
  rw [startsDue, startsDue, ← map_start_headsFrom, ← map_start_headsFrom]
  exact congrArg _ (headsFrom_braces ho hc h)

/-- Where no closing brace is due, only a semicolon outside brackets ends a statement. -/
theorem endsDue_eq_false {stack stack' : List UInt8} {cell : Cell}
    (hs : ∀ byte ∈ stack, isCloser byte ∧ byte ≠ 0x7D) (h : due stack [cell] = some stack')
    (ht : ¬ (isInert cell.byte ∧ cell.byte = 0x3B ∧ stack.length = 0)) :
    endsDue stack cell.byte = false := by
  rw [Bool.eq_false_iff]
  intro he
  rcases due_cons h with ⟨closer, hc, _⟩ | ⟨outer, hc, rfl, _⟩ | ⟨hi, hr⟩
  · rcases eq_of_endsDue he with hb | hb <;> rw [hb] at hc <;> cases hc
  · rcases eq_of_endsDue he with hb | hb
    · exact (hs _ List.mem_cons_self).2 hb
    · rw [hb] at hc
      cases hc
  · rcases eq_of_endsDue he with hb | hb
    · rw [hb] at hi
      cases hi
    · cases hr
      have hnil := eq_nil_of_endsDue (fun byte hm => (hs byte hm).1) h he
      exact ht ⟨hi, hb, by rw [hnil]; rfl⟩

/-- Where no brace opens, the first start is behind the semicolon that a search finds. -/
theorem startsDue_until {stack : List UInt8} {position found : Nat}
    (hs : ∀ byte ∈ stack, isCloser byte ∧ byte ≠ 0x7D) (h : due stack cells = some [])
    (hf : findFrom 0x3B stack.length position cells = some found)
    (hn : ∀ cell ∈ cells.take (found - position), cell.byte ≠ 0x7B) :
    startsDue stack false position cells =
      startsDue [] true (found + 1) (cells.drop (found + 1 - position)) := by
  induction cells generalizing stack position with
  | nil => cases hf
  | cons cell rest ih =>
    obtain ⟨middle, hm, hr⟩ := exists_due_of_cons h
    rw [startsDue_cons hm, Bool.false_and, Bool.false_and, Bool.or_false, if_neg Bool.false_ne_true,
      List.nil_append]
    by_cases ht : isInert cell.byte ∧ cell.byte = 0x3B ∧ stack.length = 0
    · obtain ⟨hi, hb, hl⟩ := ht
      cases List.eq_nil_of_length_eq_zero hl
      cases hm.symm.trans (due_other hi [] [])
      rw [List.length_nil, findFrom_terminator hi hb] at hf
      cases hf
      rw [hb, Nat.add_sub_cancel_left]
      rfl
    · rw [findFrom_step hm fun hi hb => ht ⟨hi, hb⟩] at hf
      obtain ⟨hle, _⟩ := findFrom_bounds hf
      have htake : found - position = found - (position + 1) + 1 := by omega
      have hskip : found + 1 - position = found + 1 - (position + 1) + 1 := by omega
      rw [htake, List.take_succ_cons, List.forall_mem_cons] at hn
      have hmiddle : ∀ byte ∈ middle, isCloser byte ∧ byte ≠ 0x7D := by
        intro byte hb
        rcases mem_of_due hm hb with hc | hb
        · refine ⟨(isOpener_of_closerOf hc).2, fun hx => hn.1 (closerOf_inj hc ?_)⟩
          rw [hx]
          rfl
        · exact hs byte hb
      rw [endsDue_eq_false hs hm ht, hskip, List.drop_succ_cons]
      exact ih hmiddle hr hf hn.2

theorem isInert_of_blank {cell : Cell} (h : cell.isBlank) :
    isInert cell.byte ∧ cell.byte ≠ 0x3B := by
  refine ⟨isInert_of_isBlank h, fun hb => ?_⟩
  rw [Cell.isBlank, hb] at h
  cases h

theorem startsDue_blanks (h : ∀ cell ∈ cells, cell.isBlank) (pending : Bool) (position : Nat)
    (rest : List Cell) : startsDue [] pending position (cells ++ rest) =
      startsDue [] pending (position + cells.length) rest := by
  rw [startsDue, startsDue, ← map_start_headsFrom, ← map_start_headsFrom,
    headsFrom_inert (by decide) fun cell hm => isInert_of_blank (h cell hm)]
  intro cell hm
  rw [h cell hm, Bool.not_true, Bool.and_false]

/-- A tail in front of which no statement ends. -/
def Continues (tail slice : Slice) : Prop :=
  ∃ before, slice.cells = before ++ tail.cells ∧ tail.start = slice.start + before.length ∧
    IsQuiet before

theorem continues_of_inert (ht : IsTail tail slice)
    (hi : ∀ cell ∈ (slice.toOffset tail.start).cells, isInert cell.byte ∧ cell.byte ≠ 0x3B) :
    Continues tail slice := by
  obtain ⟨before, hc, hs⟩ := ht
  refine ⟨before, hc, hs, isQuiet_of_inert fun cell hm => hi cell ?_⟩
  rw [toOffset, take, hc, hs, Nat.add_sub_cancel_left, List.take_left]
  exact hm

theorem Continues.follows (h : Continues tail slice) : Follows tail slice := by
  obtain ⟨before, hc, hs, hq⟩ := h
  exact ⟨before, hc, hs, hq.1⟩

theorem Continues.trans (h : Continues tail slice) (h' : Continues slice whole) :
    Continues tail whole := by
  obtain ⟨before, hc, hs, hq⟩ := h
  obtain ⟨before', hc', hs', hq'⟩ := h'
  refine ⟨before' ++ before, by rw [hc', hc, List.append_assoc], ?_, hq'.append hq⟩
  rw [hs, hs', List.length_append]
  omega

/-- Where no statement has ended the starts are those of the tail. -/
theorem Continues.starts (h : Continues tail slice) (hs : Starts false slice start) :
    Starts false tail start := by
  obtain ⟨before, hc, ht, hq⟩ := h
  rw [Starts, hc, hq.2, ← ht] at hs
  exact hs

end CodeOutline.Slice
