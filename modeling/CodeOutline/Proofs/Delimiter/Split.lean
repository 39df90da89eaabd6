import CodeOutline.Proofs.Delimiter.Piece
import CodeOutline.Proofs.Delimiter.Scan

namespace CodeOutline.Delimiter

variable {separator : UInt8} {depth position found : Nat} {cell : Cell} {cells left : List Cell}
  {pieces : List (List Cell)} {stack stack' : List UInt8}

theorem extend_eq_iff {first second : List Cell} {others : List (List Cell)} :
    extend cell pieces = first :: second :: others ↔
      ∃ tail, pieces = tail :: second :: others ∧ first = cell :: tail := by
  constructor
  · intro h
    cases pieces with
    | nil => cases h
    | cons tail pieces =>
      cases h
      exact ⟨tail, rfl, rfl⟩
  · rintro ⟨tail, rfl, rfl⟩
    rfl

/-- A search for the separator ends where the first piece ends, unless there are no more pieces or
a closer in it meets no opener. -/
theorem findFrom_eq_some_iff (hi : isInert separator) :
    findFrom separator depth position cells = some found ↔
      ∃ first second others, splitCells separator depth cells = first :: second :: others ∧
        Covers depth first ∧ found = position + first.length := by
  induction cells generalizing depth position with
  | nil =>
    refine ⟨nofun, ?_⟩
    rintro ⟨first, second, others, hs, _⟩
    cases hs
  | cons cell rest ih =>
    rcases outer_cases separator depth cell.byte with ⟨rfl, hb⟩ | ⟨rfl, hc⟩ | ⟨hinside, hopen⟩
    · obtain ⟨second, others, hs⟩ :=
        List.exists_cons_of_ne_nil (divides_splitCells separator rest).ne_nil
      rw [findFrom_terminator (hb ▸ hi) hb, splitCells_cut (hb ▸ hi) hb, hs, Option.some.injEq]
      constructor
      · rintro rfl
        exact ⟨[], second, others, rfl, covers_nil 0, rfl⟩
      · rintro ⟨first, second, others, he, _, rfl⟩
        cases he
        rfl
    · -- The search ends here; the splitting goes on, but its first piece has this closer.
      have hinside (hi : isInert cell.byte) : cell.byte = separator → 0 < 0 := by
        rw [isCloser_of_isInert hi] at hc
        cases hc
      rw [findFrom_unmatched hc, splitCells_depthAfter hinside]
      refine ⟨nofun, ?_⟩
      rintro ⟨first, second, others, he, hcover, _⟩
      obtain ⟨tail, _, rfl⟩ := extend_eq_iff.1 he
      have := hcover [cell] (List.prefix_append [cell] tail)
      have := counts_of_closing hc
      omega
    · rw [findFrom_depthAfter hinside hopen, splitCells_depthAfter fun _ => hinside, ih]
      constructor
      · rintro ⟨tail, second, others, hs, hcover, rfl⟩
        refine ⟨cell :: tail, second, others, extend_eq_iff.2 ⟨tail, hs, rfl⟩,
          (covers_cons hopen).2 hcover, ?_⟩
        rw [List.length_cons]
        omega
      · rintro ⟨first, second, others, he, hcover, rfl⟩
        obtain ⟨tail, hs, rfl⟩ := extend_eq_iff.1 he
        refine ⟨tail, second, others, hs, (covers_cons hopen).1 hcover, ?_⟩
        rw [List.length_cons]
        omega

theorem depthOver_due (h : due stack cells = some stack') :
    depthOver stack.length cells = stack'.length ∧
      stack.length + openers cells = closers cells + stack'.length := by
  induction cells generalizing stack with
  | nil =>
    cases h
    exact ⟨rfl, Nat.add_comm ..⟩
  | cons cell rest ih =>
    rw [depthOver_cons, openers_cons, closers_cons]
    rcases due_cons h with ⟨closer, hc, hr⟩ | ⟨outer, hc, rfl, hr⟩ | ⟨hi, hr⟩
    · have ho := (isOpener_of_closerOf hc).1
      have hcounts := counts_of_isOpener ho
      have := ih hr
      rw [List.length_cons] at this
      rw [depthAfter_opener ho]
      exact ⟨this.1, by omega⟩
    · have hcounts := counts_of_closing hc
      have := ih hr
      rw [depthAfter_closer hc, List.length_cons, Nat.add_sub_cancel]
      exact ⟨this.1, by omega⟩
    · have hcounts := counts_of_inert hi
      have := ih hr
      rw [depthAfter_inert hi]
      exact ⟨this.1, by omega⟩

theorem covers_of_due (h : due stack cells = some stack') : Covers stack.length cells := by
  rintro left ⟨right, rfl⟩
  obtain ⟨middle, hl, _⟩ := exists_due_of_append h
  have := (depthOver_due hl).2
  omega

theorem Divides.isNested (h : Divides separator cells pieces) (hn : IsNested cells) :
    ∀ piece ∈ pieces, IsNested piece := by
  induction h with
  | last =>
    intro piece hm
    rw [List.mem_singleton.1 hm]
    exact hn
  | next _ hd hi _ _ ih =>
    obtain ⟨middle, hl, hr⟩ := exists_due_of_append hn
    have hlength := (depthOver_due hl).1
    rw [List.length_nil, hd] at hlength
    cases List.eq_nil_of_length_eq_zero hlength.symm
    rw [due_other hi] at hr
    intro piece hm
    rcases List.mem_cons.1 hm with rfl | hm
    · exact hl
    · exact ih hr piece hm

/-- A place between a bracket of some cells and the one that closes it. -/
def IsInside (cells : List Cell) (place : Nat) : Prop :=
  ∃ opening close, closing cells opening = .ok close ∧ opening < place ∧ place < close

/-- What stands in a nested text where a bracket is open stands between two brackets. -/
theorem isInside_of_depthOver {right : List Cell} (hn : IsNested (left ++ cell :: right))
    (hi : isInert cell.byte) (hd : 0 < depthOver 0 left) :
    IsInside (left ++ cell :: right) left.length := by
  obtain ⟨middle, hl, hr⟩ := exists_due_of_append hn
  have hlength := (depthOver_due hl).1
  rw [List.length_nil] at hlength
  cases middle with
  | nil =>
    rw [List.length_nil] at hlength
    omega
  | cons closer outer =>
    obtain ⟨popped, he, _⟩ | ⟨before, opening, inner, rfl, hc, hinner⟩ := due_opening hl
    · exact absurd he.symm (List.append_ne_nil_of_right_ne_nil _ (List.cons_ne_nil _ _))
    · rw [due_other hi] at hr
      obtain ⟨middle, last, rest, rfl, hmiddle, rfl, _⟩ :=
        Delimiter.exists_closing (show due ([] ++ closer :: outer) right = some [] from hr)
      have hstretch : IsNested (inner ++ cell :: middle) :=
        hinner.append ((due_other hi ..).trans hmiddle)
      refine ⟨before.length, before.length + 1 + (inner ++ cell :: middle).length, ?_, ?_, ?_⟩
      · rw [← closing_nested hc hstretch rest]
        simp only [List.append_assoc, List.cons_append]
      · rw [List.length_append, List.length_cons]
        omega
      · simp only [List.length_append, List.length_cons]
        omega

end CodeOutline.Delimiter

namespace CodeOutline.Slice

open Delimiter

/-- The part of a text between two offsets. -/
def stretch (text : List Cell) (start stop : Nat) : Slice :=
  ((Slice.mk 0 text).toOffset stop).fromOffset start

/-- The pieces between the separators outside brackets that a text has between two offsets. -/
structure Splits (separator : UInt8) (text : List Cell) (start stop : Nat) (pieces : List Slice) :
    Prop where
  spelled : [separator].intercalate (pieces.map bytes) = (stretch text start stop).bytes
  placed : ∀ piece ∈ pieces, IsPart piece ⟨0, text⟩
  begins : pieces.head?.map Slice.start = some start
  ends : pieces.getLast?.map Slice.stop = some stop
  adjoin : pieces.IsChain (Adjoins separator ⟨0, text⟩)
  kept : ∀ piece ∈ pieces, ∀ left cell, left ++ [cell] <+: piece.cells → cell.byte = separator →
    LeavesOpen left

variable {separator : UInt8} {start stop : Nat} {text : List Cell} {slice piece : Slice}

theorem stretch_spec (hle : start ≤ stop) (hstop : stop ≤ text.length) :
    IsPart (stretch text start stop) ⟨0, text⟩ ∧ (stretch text start stop).stop = stop := by
  have hend : stop ≤ (Slice.mk 0 text).stop := by
    rw [Slice.stop, Nat.zero_add]
    exact hstop
  have htail := isTail_toOffset (Nat.zero_le start) hle hend
  exact ⟨htail.isPart.trans (isPart_toOffset ..),
    htail.stop_eq.trans (stop_toOffset (Nat.zero_le stop) hend)⟩

theorem splitRange?_eq (hstop : stop ≤ text.length) :
    splitRange? text start stop separator = some ((stretch text start stop).split separator) :=
  if_neg fun h => Nat.not_lt_of_le hstop h.2

theorem splits_stretch (hle : start ≤ stop) (hstop : stop ≤ text.length) (hi : isInert separator) :
    Splits separator text start stop ((stretch text start stop).split separator) := by
  have hdivides := divides_splitCells separator (stretch text start stop).cells
  obtain ⟨hpart, hend⟩ := stretch_spec hle hstop
  refine ⟨?spelled, ?placed, begins_place hdivides _, ?ends, ?adjoin, ?kept⟩
  case spelled =>
    rw [split, map_bytes_place]
    exact hdivides.spelled
  case placed => exact fun piece hm => (isPart_split hm).trans hpart
  case ends =>
    have hends := ends_place hdivides (stretch text start stop).start
    rwa [← Slice.stop, hend] at hends
  case adjoin => exact (adjoin_place hdivides _).imp fun _ _ h => h.mono hpart
  case kept =>
    intro piece hm left cell hp hb
    exact leavesOpen_iff.2 (hdivides.uncut _ (mem_of_mem_place hm) left cell hp (hb ▸ hi) hb)

theorem find?_eq_some_iff {found : Nat} (hi : isInert separator) :
    slice.find? separator = some found ↔
      ∃ first second others, slice.split separator = first :: second :: others ∧
        Covers 0 first.cells ∧ found = first.stop := by
  rw [find?, findFrom_eq_some_iff hi, split]
  constructor
  · rintro ⟨first, second, others, hs, hc, rfl⟩
    rw [hs]
    exact ⟨_, _, _, rfl, hc, rfl⟩
  · rintro ⟨first, second, others, hs, hc, rfl⟩
    cases hp : splitCells separator 0 slice.cells with
    | nil =>
      rw [hp] at hs
      cases hs
    | cons head tail =>
      rw [hp, place] at hs
      cases tail with
      | nil => cases hs
      | cons next tail =>
        cases hs
        exact ⟨head, next, tail, rfl, hc, rfl⟩

/-- A closer without an opener ends a search, but not the splitting. -/
example : (Slice.ofString "a),b").find? 0x2C = none ∧
    ((Slice.ofString "a),b").split 0x2C).map Slice.stop = [2, 4] := by
  decide +kernel

theorem isNested_of_mem_split (hn : IsNested slice.cells) (hm : piece ∈ slice.split separator) :
    IsNested piece.cells :=
  (divides_splitCells separator slice.cells).isNested hn _ (mem_of_mem_place hm)

theorem split_of_find?_eq_none (hi : isInert separator) (hn : IsNested slice.cells)
    (h : slice.find? separator = none) : ∃ piece, slice.split separator = [piece] := by
  have hbegins := begins_place (divides_splitCells separator slice.cells) slice.start
  rw [← split] at hbegins
  cases hs : slice.split separator with
  | nil =>
    rw [hs] at hbegins
    cases hbegins
  | cons first others =>
    cases others with
    | nil => exact ⟨first, rfl⟩
    | cons second others =>
      have hfirst : IsNested first.cells :=
        isNested_of_mem_split hn (hs ▸ List.mem_cons_self)
      have hfound := (find?_eq_some_iff hi).2
        ⟨first, second, others, hs, covers_of_due hfirst, rfl⟩
      rw [h] at hfound
      cases hfound

theorem isInside_of_mem_split {before : List Cell} {cell : Cell} (hi : isInert separator)
    (hn : IsNested slice.cells) (hm : piece ∈ slice.split separator)
    (hp : before ++ [cell] <+: piece.cells) (hb : cell.byte = separator) :
    IsInside piece.cells before.length := by
  have hpiece := isNested_of_mem_split hn hm
  have hcell : isInert cell.byte := hb ▸ hi
  have hdepth := (divides_splitCells separator slice.cells).uncut _ (mem_of_mem_place hm) before
    cell hp hcell hb
  obtain ⟨after, ha⟩ := hp
  rw [List.append_assoc, List.singleton_append] at ha
  rw [← ha] at hpiece ⊢
  exact isInside_of_depthOver hpiece hcell hdepth

end CodeOutline.Slice

namespace CodeOutline.Delimiter

open Slice (Splits stretch)

/-- Pieces of a text between two offsets spell it with the separator between them, and stand one
separator apart where no bracket is open; one that is kept in a piece stands where some bracket is. A
search for the separator ends where the first of several pieces ends, if it meets no closer without
an opener. In a nested text it finds nothing only if there is one piece, the pieces are nested, and a
separator that is kept in one of them stands between two brackets of it. -/
theorem splitRange?_spec (text : List Cell) {start stop : Nat} {separator : UInt8}
    (hle : start ≤ stop) (hstop : stop ≤ text.length) (hi : isInert separator) :
    ∃ pieces, splitRange? text start stop separator = some pieces ∧
      Splits separator text start stop pieces ∧
      (∀ found, (stretch text start stop).find? separator = some found ↔
        ∃ first second others, pieces = first :: second :: others ∧ Covers 0 first.cells ∧
          found = first.stop) ∧
      (IsNested (stretch text start stop).cells →
        ((stretch text start stop).find? separator = none → ∃ piece, pieces = [piece]) ∧
        ∀ piece ∈ pieces, IsNested piece.cells ∧
          ∀ left cell, left ++ [cell] <+: piece.cells → cell.byte = separator →
            IsInside piece.cells left.length) := by
  refine ⟨_, Slice.splitRange?_eq hstop, Slice.splits_stretch hle hstop hi,
    fun found => Slice.find?_eq_some_iff hi, fun hn => ⟨Slice.split_of_find?_eq_none hi hn, ?_⟩⟩
  intro piece hm
  exact ⟨Slice.isNested_of_mem_split hn hm,
    fun left cell hp hb => Slice.isInside_of_mem_split hi hn hm hp hb⟩

/-- The clauses of a loop whose text goes on with a brace that is not closed. -/
theorem splitRange?_clauses :
    let text := (Slice.ofString "for(;f(a;b);)\x7b").cells
    4 ≤ 12 ∧ 12 ≤ text.length ∧ isInert 0x3B ∧ IsNested (stretch text 4 12).cells ∧
      (stretch text 4 12).find? 0x3B = some 4 ∧
      ∃ pieces, splitRange? text 4 12 0x3B = some pieces ∧
        pieces.map Slice.stop = [4, 11, 12] ∧ Splits 0x3B text 4 12 pieces ∧
        ∀ piece ∈ pieces, IsNested piece.cells ∧
          ∀ left cell, left ++ [cell] <+: piece.cells → cell.byte = 0x3B →
            IsInside piece.cells left.length := by
  intro text
  have hlength : 12 ≤ text.length := by decide +kernel
  have hinert : isInert 0x3B := by decide
  have hnested : IsNested (stretch text 4 12).cells := by decide +kernel
  have hstops : (splitRange? text 4 12 0x3B).map (List.map Slice.stop) = some [4, 11, 12] := by
    decide +kernel
  obtain ⟨pieces, hs, hsplits, _, hinside⟩ :=
    splitRange?_spec text (show 4 ≤ 12 by decide) hlength hinert
  rw [hs, Option.map_some, Option.some.injEq] at hstops
  exact ⟨by decide, hlength, hinert, hnested, by decide +kernel, pieces, hs, hstops, hsplits,
    (hinside hnested).2⟩

end CodeOutline.Delimiter
