import CodeOutline.Proofs.Checked.Access
import CodeOutline.Proofs.Checked.Boundary
import CodeOutline.Proofs.Fault
import Mathlib.Data.List.Induction

namespace CodeOutline

theorem Cell.isBoundary_append_left {left right : List Cell} {offset : Nat}
    (h : isBoundary (left ++ right) offset) (hle : offset ≤ left.length) :
    isBoundary left offset := by
  rcases Nat.lt_or_eq_of_le hle with hlt | rfl
  · rw [isBoundary, List.getElem?_append_left hlt] at h
    rw [isBoundary]
    rw [List.getElem?_eq_getElem hlt] at h ⊢
    exact h
  · simp [isBoundary]

theorem Cell.isBoundary_append_right {left right : List Cell} {offset : Nat}
    (hle : left.length ≤ offset) :
    isBoundary (left ++ right) offset = isBoundary right (offset - left.length) := by
  rw [isBoundary, isBoundary, List.getElem?_append_right hle, List.length_append]
  cases right[offset - left.length]? with
  | some cell => rfl
  | none => exact decide_eq_decide.2 (by omega)

namespace Checked

open Slice (IsPart IsTail IsWhole)

section

variable {text part tail : Slice} {chars : List Char} {cell : Cell} {cells : List Cell}
  {position : Nat} {byte : UInt8}

theorem eq_of_isPart (h : IsPart part text) :
    (text.toOffset part.stop).fromOffset part.start = part := by
  obtain ⟨before, after, hc, hs⟩ := h
  have htake : part.stop - text.start = (before ++ part.cells).length := by
    rw [Slice.stop, hs, List.length_append]
    omega
  have hdrop : part.start - text.start = before.length := by omega
  rw [← List.append_assoc] at hc
  simp only [Slice.toOffset, Slice.fromOffset, Slice.take, htake, hdrop, hc, List.take_left,
    List.drop_left]

theorem eq_of_isTail (h : IsTail tail text) : text.fromOffset tail.start = tail := by
  have hstop := h.stop_eq
  have hle := Slice.start_le_stop tail
  have hs := h.isPart.start_le
  exact (Slice.isTail_fromOffset hs (by omega)).eq h rfl

theorem between?_eq (hz : text.start = 0) (ht : IsWhole chars text) (hp : IsWhole chars part)
    (h : IsPart part text) : text.between? part.start part.stop = some part := by
  obtain ⟨before, after, hc, hs⟩ := ht.isPart
  have hbefore : before = [] := by
    rw [hz, Slice.laid_start] at hs
    exact List.eq_nil_of_length_eq_zero (by omega)
  have hlaid : Cell.layout chars = text.cells ++ after := by
    rw [hbefore] at hc
    exact hc
  have hle := Slice.start_le_stop part
  have hstop := h.stop_le
  have hlength : text.stop = text.cells.length := by rw [Slice.stop, hz, Nat.zero_add]
  have hb := hp.start
  have hb' := hp.stop
  rw [hlaid] at hb hb'
  rw [Slice.between?, if_pos, eq_of_isPart h]
  rw [hz, Nat.sub_zero, Nat.sub_zero]
  exact ⟨Nat.zero_le _, hle, hstop, Cell.isBoundary_append_left hb (by omega),
    Cell.isBoundary_append_left hb' (by omega)⟩

theorem cut_eq (hz : text.start = 0) (ht : IsWhole chars text) (hp : IsWhole chars part)
    (h : IsPart part text) : cut text part.span = .ok part := by
  rw [cut, Slice.span, between?_eq hz ht hp h]

variable (hz : text.start = 0)

include hz

theorem byteAt_eq (h : IsPart ⟨position, cell :: cells⟩ text) :
    byteAt text position = .ok cell.byte := by
  obtain ⟨before, after, hc, hs⟩ := h
  rw [hz, Nat.zero_add] at hs
  have hget : text.cells[position]? = some cell := by
    rw [hc, show position = before.length from hs]
    simp
  rw [byteAt, hget]

theorem byteAt_startsWith {c : Char} (h : IsTail tail text) (hne : tail.cells ≠ []) :
    ∃ byte, byteAt text tail.start = .ok byte ∧
      (byte = c.val.toUInt8 ↔ tail.startsWith c) := by
  obtain ⟨start, cells⟩ := tail
  cases cells with
  | nil => exact absurd rfl hne
  | cons cell rest => exact ⟨cell.byte, byteAt_eq hz h.isPart, decide_eq_true_iff.symm⟩

omit hz in
theorem skipFrom_eq (h : IsTail tail text) :
    skipFrom text tail.start = tail.next?.map Slice.start := by
  rw [skipFrom, eq_of_isTail h]

theorem expect_eq (h : IsTail tail text) (c : Char) :
    expect text tail.start c.val.toUInt8 =
      .ok (if tail.skipBlank.startsWith c then some tail.skipBlank.start else none) := by
  rw [expect, skipFrom_eq h]
  cases hn : tail.next? with
  | none =>
    have hempty : tail.skipBlank.startsWith c = false := by
      rw [Slice.next?] at hn
      split at hn
      · next he =>
        rw [Slice.isEmpty, List.isEmpty_iff] at he
        rw [Slice.startsWith, he]
        rfl
      · cases hn
    rw [hempty]
    rfl
  | some next =>
    obtain ⟨rfl, ht, hlt⟩ := Slice.next?_spec hn
    have hne : tail.skipBlank.cells ≠ [] := by
      intro hc
      rw [Slice.stop, hc] at hlt
      exact Nat.lt_irrefl _ hlt
    obtain ⟨byte, hb, hiff⟩ := byteAt_startsWith (c := c) hz (ht.trans h) hne
    simp only [Option.map_some, hb, ok_bind, hiff]
    split <;> rfl

omit hz in
theorem findFrom_eq (h : IsTail tail text) :
    findFrom text tail.start tail.stop byte = tail.find? byte := by
  rw [findFrom, eq_of_isPart h.isPart]

theorem closing?_eq (h : IsTail tail text) : closing? text tail.start = tail.close? := by
  obtain ⟨before, hc, hs⟩ := h
  rw [hz, Nat.zero_add] at hs
  have hdrop : text.cells.drop tail.start = tail.cells := by rw [hc, hs, List.drop_left]
  rw [closing?, Delimiter.closing, hdrop, Slice.close?]
  cases tail.cells with
  | nil => rfl
  | cons cell rest =>
    cases ho : Delimiter.closerOf cell.byte with
    | none => simp only [ho, Option.bind_none, Except.toOption]
    | some closer =>
      simp only [ho, Option.bind_some]
      cases Delimiter.closeFrom cell.byte closer 0 (tail.start + 1) rest <;> rfl

theorem skipBlanks_eq (h : IsPart ⟨position, cells⟩ text) :
    skipBlanks text position cells.length =
      .ok (position + (cells.takeWhile Cell.isBlank).length) := by
  induction cells generalizing position with
  | nil => rfl
  | cons cell rest ih =>
    have hrest := ih ((Slice.isTail_cons position cell rest).isPart.trans h)
    rw [List.length_cons, skipBlanks, byteAt_eq hz h, ok_bind, hrest]
    by_cases hb : CharClass.isBlank cell.byte
    · rw [if_pos hb, List.takeWhile_cons_of_pos (show cell.isBlank from hb), List.length_cons]
      exact congrArg Except.ok (by omega)
    · rw [if_neg hb, List.takeWhile_cons_of_neg (show ¬ cell.isBlank from hb)]
      rfl

theorem dropBlanks_eq (h : IsPart ⟨position, cells⟩ text) :
    dropBlanks text (position + cells.length) cells.length =
      .ok (position + (cells.reverse.dropWhile Cell.isBlank).length) := by
  induction cells using List.reverseRecOn with
  | nil => rfl
  | append_singleton cells last ih =>
    have hfront : IsPart ⟨position, cells⟩ ⟨position, cells ++ [last]⟩ := ⟨[], [last], rfl, rfl⟩
    have hlast : IsPart ⟨position + cells.length, [last]⟩ ⟨position, cells ++ [last]⟩ :=
      ⟨cells, [], by simp, rfl⟩
    have hlength : position + (cells ++ [last]).length - 1 = position + cells.length := by
      rw [List.length_append, List.length_singleton]
      omega
    have hrest := ih (hfront.trans h)
    rw [List.length_append, List.length_singleton, dropBlanks, ← Nat.add_assoc,
      Nat.add_sub_cancel, byteAt_eq hz (hlast.trans h), ok_bind, hrest, List.reverse_append,
      List.reverse_singleton, List.singleton_append]
    by_cases hb : CharClass.isBlank last.byte
    · rw [if_pos hb, List.dropWhile_cons_of_pos (show last.isBlank from hb)]
    · rw [if_neg hb, List.dropWhile_cons_of_neg (show ¬ last.isBlank from hb), List.length_cons,
        List.length_reverse]
      rfl

/-- The pieces are found one by one: the one that began at `start`, and then the others. -/
theorem splitFrom_eq (separator : UInt8) (depth start : Nat)
    (h : IsPart ⟨position, cells⟩ text) :
    ∃ first others, Delimiter.splitCells separator depth cells = first :: others ∧
      splitFrom text separator (position + cells.length) depth start position cells.length =
        .ok (⟨start, position + first.length⟩ ::
          (Delimiter.place (position + first.length + 1) others).map Slice.span) := by
  induction cells generalizing depth start position with
  | nil => exact ⟨[], [], rfl, rfl⟩
  | cons cell rest ih =>
    have hrest := (Slice.isTail_cons position cell rest).isPart.trans h
    have hstop : position + (cell :: rest).length = position + 1 + rest.length := by
      rw [List.length_cons]
      omega
    have hextend (depth : Nat) : ∃ first others,
        Delimiter.extend cell (Delimiter.splitCells separator depth rest) = first :: others ∧
          splitFrom text separator (position + (cell :: rest).length) depth start (position + 1)
              rest.length =
            .ok (⟨start, position + first.length⟩ ::
              (Delimiter.place (position + first.length + 1) others).map Slice.span) := by
      obtain ⟨first, others, he, hs⟩ := ih depth start hrest
      have hlength : position + (cell :: first).length = position + 1 + first.length := by
        rw [List.length_cons]
        omega
      exact ⟨cell :: first, others, by rw [he, Delimiter.extend], by rw [hstop, hs, hlength]⟩
    rw [Delimiter.splitCells]
    simp only [List.length_cons, splitFrom, byteAt_eq hz h, ok_bind]
    simp only [List.length_cons] at hextend
    split
    · exact hextend _
    · split
      · exact hextend _
      · split
        · obtain ⟨first, others, he, hs⟩ := ih 0 (position + 1) hrest
          refine ⟨[], _, rfl, ?_⟩
          rw [List.length_cons] at hstop
          rw [hstop, hs, he]
          rfl
        · exact hextend _

theorem split_eq {separator : UInt8} (h : IsPart part text) :
    split text part.span separator = .ok ((part.split separator).map Slice.span) := by
  obtain ⟨first, others, he, hs⟩ := splitFrom_eq hz separator 0 part.start h
  have hcount : part.span.stop - part.span.start = part.cells.length := Nat.add_sub_cancel_left ..
  rw [split, hcount, Slice.split, he]
  exact hs

end

end Checked

end CodeOutline
