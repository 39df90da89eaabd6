import CodeOutline.Proofs.Delimiter.Found
import CodeOutline.Proofs.Text.Part
import Mathlib.Data.List.Chain

namespace CodeOutline.Delimiter

/-- With some brackets open before it, a text has a separator only where a bracket is open. -/
def Uncut (separator : UInt8) (depth : Nat) (cells : List Cell) : Prop :=
  ∀ left cell, left ++ [cell] <+: cells → isInert cell.byte → cell.byte = separator →
    0 < depthOver depth left

/-- How the separators outside brackets divide some cells. -/
inductive Divides (separator : UInt8) : List Cell → List (List Cell) → Prop where
  | last {cells : List Cell} (uncut : Uncut separator 0 cells) : Divides separator cells [cells]
  | next {first rest : List Cell} {cell : Cell} {others : List (List Cell)}
      (uncut : Uncut separator 0 first) (shut : depthOver 0 first = 0) (inert : isInert cell.byte)
      (byte : cell.byte = separator) (divides : Divides separator rest others) :
      Divides separator (first ++ cell :: rest) (first :: others)

open Slice (IsPart)

variable {separator : UInt8} {depth start : Nat} {cell : Cell} {cells rest : List Cell}
  {pieces : List (List Cell)}

theorem Stands.of_isPart {byte : UInt8} {found : Nat} {part whole : Slice}
    (h : Stands byte part.start found part.cells) (hp : IsPart part whole) :
    Stands byte whole.start found whole.cells := by
  obtain ⟨before, after, hc, hs⟩ := hp
  rw [hs] at h
  rw [hc]
  exact h.of_append after

theorem uncut_nil (separator : UInt8) (depth : Nat) : Uncut separator depth [] :=
  fun _ _ hp => absurd (List.prefix_nil.1 hp) (List.append_ne_nil_of_right_ne_nil _ nofun)

theorem Uncut.cons (hc : isInert cell.byte → cell.byte = separator → 0 < depth)
    (h : Uncut separator (depthAfter depth cell.byte) rest) :
    Uncut separator depth (cell :: rest) := by
  intro left last hp hi hb
  cases left with
  | nil =>
    obtain ⟨rfl, _⟩ := List.cons_prefix_cons.1 hp
    exact hc hi hb
  | cons first left =>
    obtain ⟨rfl, hrest⟩ := List.cons_prefix_cons.1 hp
    exact h left last hrest hi hb

/-- The first piece is the whole of some cells, or ends at the first separator outside brackets. -/
theorem splitCells_spec (separator : UInt8) (depth : Nat) (cells : List Cell) :
    (splitCells separator depth cells = [cells] ∧ Uncut separator depth cells) ∨
    ∃ first cell rest, cells = first ++ cell :: rest ∧ isInert cell.byte ∧ cell.byte = separator ∧
      Uncut separator depth first ∧ depthOver depth first = 0 ∧
      splitCells separator depth cells = first :: splitCells separator 0 rest := by
  induction cells generalizing depth with
  | nil => exact .inl ⟨rfl, uncut_nil _ _⟩
  | cons cell rest ih =>
    by_cases hx : isInert cell.byte ∧ cell.byte = separator ∧ depth = 0
    · obtain ⟨hi, hb, rfl⟩ := hx
      exact .inr ⟨[], cell, rest, rfl, hi, hb, uncut_nil _ _, rfl, splitCells_cut hi hb⟩
    · have hinside (hi : isInert cell.byte) (hb : cell.byte = separator) : 0 < depth :=
        Nat.pos_of_ne_zero fun hz => hx ⟨hi, hb, hz⟩
      rw [splitCells_depthAfter hinside]
      rcases ih (depthAfter depth cell.byte) with
        ⟨hs, hu⟩ | ⟨first, last, rest, rfl, hi, hb, hu, hd, hs⟩
      · exact .inl ⟨by rw [hs, extend], hu.cons hinside⟩
      · exact .inr ⟨cell :: first, last, rest, rfl, hi, hb, hu.cons hinside, hd, by rw [hs, extend]⟩

theorem divides_splitCells (separator : UInt8) (cells : List Cell) :
    Divides separator cells (splitCells separator 0 cells) := by
  rcases splitCells_spec separator 0 cells with
    ⟨hs, hu⟩ | ⟨first, cell, rest, he, hi, hb, hu, hd, hs⟩
  · rw [hs]
    exact .last hu
  · have hshorter : rest.length < cells.length := by
      rw [he, List.length_append, List.length_cons]
      omega
    rw [hs, he]
    exact .next hu hd hi hb (divides_splitCells separator rest)
termination_by cells.length

theorem Divides.ne_nil (h : Divides separator cells pieces) : pieces ≠ [] := by
  cases h <;> exact List.cons_ne_nil _ _

theorem Divides.length_le (h : Divides separator cells pieces) :
    pieces.length ≤ cells.length + 1 := by
  induction h with
  | last => exact Nat.le_add_left ..
  | next _ _ _ _ _ ih =>
    rw [List.length_cons, List.length_append, List.length_cons]
    omega

theorem Divides.uncut (h : Divides separator cells pieces) :
    ∀ piece ∈ pieces, Uncut separator 0 piece := by
  induction h with
  | last hu =>
    intro piece hm
    rw [List.mem_singleton.1 hm]
    exact hu
  | next hu _ _ _ _ ih =>
    intro piece hm
    rcases List.mem_cons.1 hm with rfl | hm
    · exact hu
    · exact ih piece hm

/-- The pieces with the separator between them spell the text. -/
theorem Divides.spelled (h : Divides separator cells pieces) :
    [separator].intercalate (pieces.map (List.map Cell.byte)) = cells.map Cell.byte := by
  induction h with
  | last => exact List.intercalate_singleton
  | @next first rest cell others _ _ _ hb hr ih =>
    obtain ⟨second, others, rfl⟩ := List.exists_cons_of_ne_nil hr.ne_nil
    rw [List.map_cons, List.map_cons, List.intercalate_cons_cons, ← List.map_cons, ih,
      List.map_append, List.map_cons, hb, List.append_assoc]
    rfl

theorem map_cells_place (start : Nat) (pieces : List (List Cell)) :
    (place start pieces).map Slice.cells = pieces := by
  induction pieces generalizing start with
  | nil => rfl
  | cons piece others ih => rw [place, List.map_cons, ih]

theorem mem_of_mem_place {piece : Slice} (h : piece ∈ place start pieces) :
    piece.cells ∈ pieces := by
  have hm := List.mem_map_of_mem (f := Slice.cells) h
  rwa [map_cells_place] at hm

end CodeOutline.Delimiter

namespace CodeOutline.Slice

open Delimiter

def bytes (slice : Slice) : List UInt8 :=
  slice.cells.map Cell.byte

/-- One separator stands between two parts of a text, and no bracket is open there. -/
structure Adjoins (separator : UInt8) (whole left right : Slice) : Prop where
  next : right.start = left.stop + 1
  gap : ∃ cell, cell.byte = separator ∧ IsPart ⟨left.stop, [cell]⟩ whole
  shut : ¬ LeavesOpen left.cells

variable {separator : UInt8} {start : Nat} {cells : List Cell} {pieces : List (List Cell)}
  {slice whole left right piece : Slice}

theorem Adjoins.mono (h : Adjoins separator slice left right) (hp : IsPart slice whole) :
    Adjoins separator whole left right := by
  obtain ⟨cell, hb, hgap⟩ := h.gap
  exact ⟨h.next, ⟨cell, hb, hgap.trans hp⟩, h.shut⟩

theorem isTail_behind (start : Nat) (first : List Cell) (cell : Cell) (rest : List Cell) :
    IsTail ⟨start + first.length + 1, rest⟩ ⟨start, first ++ cell :: rest⟩ := by
  refine ⟨first ++ [cell], ?_, ?_⟩
  · rw [List.append_assoc]
    rfl
  · rw [List.length_append, List.length_singleton, ← Nat.add_assoc]

theorem isPart_place (h : Divides separator cells pieces) :
    ∀ piece ∈ place start pieces, IsPart piece ⟨start, cells⟩ := by
  induction h generalizing start with
  | last =>
    intro piece hm
    rw [List.mem_singleton.1 hm]
    exact IsPart.refl _
  | @next first rest cell others _ _ _ _ _ ih =>
    intro piece hm
    rcases List.mem_cons.1 hm with rfl | hm
    · exact ⟨[], cell :: rest, rfl, rfl⟩
    · exact (ih piece hm).trans (isTail_behind ..).isPart

theorem begins_place (h : Divides separator cells pieces) (start : Nat) :
    (place start pieces).head?.map Slice.start = some start := by
  cases h <;> rfl

theorem ends_place (h : Divides separator cells pieces) (start : Nat) :
    (place start pieces).getLast?.map Slice.stop = some (start + cells.length) := by
  induction h generalizing start with
  | last => rfl
  | @next first rest cell others _ _ _ _ hr ih =>
    have hlast := ih (start + first.length + 1)
    obtain ⟨second, others, rfl⟩ := List.exists_cons_of_ne_nil hr.ne_nil
    rw [place, place, List.getLast?_cons_cons, ← place, hlast, List.length_append, List.length_cons]
    congr 1
    omega

theorem adjoin_place (h : Divides separator cells pieces) (start : Nat) :
    (place start pieces).IsChain (Adjoins separator ⟨start, cells⟩) := by
  induction h generalizing start with
  | last => exact .singleton _
  | @next first rest cell others _ hd _ hb hr ih =>
    have hlater := (ih (start + first.length + 1)).imp fun _ _ h =>
      h.mono (isTail_behind start first cell rest).isPart
    obtain ⟨second, others, rfl⟩ := List.exists_cons_of_ne_nil hr.ne_nil
    refine .cons_cons ⟨rfl, ⟨cell, hb, first, rest, rfl, rfl⟩, ?_⟩ hlater
    rw [leavesOpen_iff, hd]
    exact Nat.lt_irrefl 0

theorem map_bytes_place (start : Nat) (pieces : List (List Cell)) :
    (place start pieces).map bytes = pieces.map (List.map Cell.byte) := by
  rw [← map_cells_place start pieces, List.map_map, map_cells_place]
  rfl

theorem isPart_split (h : piece ∈ slice.split separator) : IsPart piece slice :=
  isPart_place (divides_splitCells separator slice.cells) piece h

theorem length_split_le (separator : UInt8) (slice : Slice) :
    (slice.split separator).length ≤ slice.cells.length + 1 := by
  rw [split, ← List.length_map (f := Slice.cells), map_cells_place]
  exact (divides_splitCells separator slice.cells).length_le

theorem stop_of_mem_place (h : Divides separator cells pieces) :
    ∀ piece ∈ place start pieces,
      Stands separator start piece.stop cells ∨ piece.stop = start + cells.length := by
  induction h generalizing start with
  | last =>
    intro piece hm
    rw [List.mem_singleton.1 hm]
    exact .inr rfl
  | @next first rest cell others _ _ _ hb _ ih =>
    intro piece hm
    rcases List.mem_cons.1 hm with rfl | hm
    · exact .inl ⟨first, cell, rest, rfl, hb, rfl⟩
    · have htail := isTail_behind start first cell rest
      exact (ih piece hm).imp (fun h => h.of_isPart htail.isPart) fun h => h.trans htail.stop_eq

theorem stop_of_mem_split (h : piece ∈ slice.split separator) :
    Stands separator slice.start piece.stop slice.cells ∨ piece.stop = slice.stop :=
  stop_of_mem_place (divides_splitCells separator slice.cells) piece h

end CodeOutline.Slice
