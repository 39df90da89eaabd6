import CodeOutline.Proofs.Checked.Masked
import CodeOutline.Proofs.Text.Shown

namespace CodeOutline

open Cell (layout)
open Slice (IsPart IsTail IsWhole)

/-- A masked byte is the byte of the text or a space, and a line break where the text has one. -/
structure Cell.Masks (masked cell : Cell) : Prop where
  byte : masked.byte = cell.byte ∨ masked.byte = 0x20
  lineBreak : masked.byte = 0x0A ↔ cell.byte = 0x0A

namespace Mask

variable {masked cell : Cell}

theorem masks_refl (cell : Cell) : cell.Masks cell :=
  ⟨.inl rfl, Iff.rfl⟩

theorem masks_blank (c : Char) : List.Forall₂ Cell.Masks (layout (blank c)) (Cell.ofChar c) := by
  rw [blank]
  split
  · next hc =>
    subst hc
    exact List.forall₂_same.2 fun cell _ => masks_refl cell
  · next hc =>
    rw [List.forall₂_iff_zip]
    refine ⟨?_, fun {masked cell} hm => ?_⟩
    · have hwidth := width_blank c
      rw [blank, if_neg hc] at hwidth
      exact hwidth.trans (Cell.ofChar_length c).symm
    · have hm := List.of_mem_zip hm
      obtain ⟨d, hd, hspace⟩ := List.mem_flatMap.1 hm.1
      rw [List.eq_of_mem_replicate hd] at hspace
      have hmasked : masked.byte = 0x20 := congrArg Cell.byte (List.mem_singleton.1 hspace)
      refine ⟨.inr hmasked, ?_⟩
      rw [hmasked]
      refine ⟨fun h => absurd h (by decide), fun h => ?_⟩
      exact absurd (Cell.eq_of_byte_eq hm.2 (by decide : '\n'.toNat < 128) h) hc

theorem masks_runFrom (mode : Mode) (chars : List Char) :
    List.Forall₂ Cell.Masks (layout (runFrom mode chars)) (layout chars) := by
  induction chars generalizing mode with
  | nil => exact .nil
  | cons c rest ih =>
    rw [runFrom_cons, Cell.layout_append, Cell.layout_cons c rest]
    refine List.rel_append ?_ (ih _)
    split
    · rw [Cell.layout_cons, Cell.layout_nil, List.append_nil]
      exact List.forall₂_same.2 fun cell _ => masks_refl cell
    · exact masks_blank c

end Mask

namespace Slice

variable {chars : List Char} {slice : Slice} {start stop : Nat}

theorem exists_between? (hs : Cell.isBoundary (layout chars) start)
    (ht : Cell.isBoundary (layout chars) stop) (hle : start ≤ stop) :
    ∃ slice, (laid 0 chars).between? start stop = some slice ∧ slice.span = ⟨start, stop⟩ ∧
      IsWhole chars slice := by
  have hstop : stop ≤ (laid 0 chars).stop := by
    obtain ⟨front, back, rfl, rfl⟩ := Cell.exists_of_isBoundary ht
    rw [laid_stop, Nat.zero_add, Cell.width_append]
    exact Nat.le_add_right ..
  have hbetween : (laid 0 chars).between? start stop =
      some (((laid 0 chars).toOffset stop).fromOffset start) :=
    if_pos ⟨Nat.zero_le _, hle, hstop, hs, ht⟩
  have hspan : (((laid 0 chars).toOffset stop).fromOffset start).stop = stop :=
    (isTail_toOffset (Nat.zero_le start) hle hstop).stop_eq.trans
      (stop_toOffset (Nat.zero_le stop) hstop)
  exact ⟨_, hbetween, congrArg (Span.mk start) hspan, isPart_between? hbetween, hs, hspan.symm ▸ ht⟩

end Slice

namespace Source

/-- The stretch of a masked text between two offsets, what is left of it without the blanks around
it and what the text has there. -/
structure Quotes (source : Source) (start stop : Nat) (slice : Slice) : Prop where
  between : source.view.between? start stop = some slice
  trim : Checked.trim source ⟨start, stop⟩ = .ok slice.trim.span
  isBoundary : slice.trim.cells = [] ∨
    (Cell.isBoundary source.cells slice.trim.start ∧ Cell.isBoundary source.cells slice.trim.stop)
  fragment : Checked.fragment source ⟨start, stop⟩ = .ok (source.fragment? slice)
  isSome : (source.fragment? slice).isSome ↔ ∃ cell ∈ slice.cells, cell.isBlank = false

variable {text : String} {slice : Slice}

theorem isSome_fragment? (source : Source) (slice : Slice) :
    (source.fragment? slice).isSome ↔ ∃ cell ∈ slice.cells, cell.isBlank = false := by
  have hblank : slice.trim.isEmpty ↔ ∀ cell ∈ slice.cells, cell.isBlank := by
    rw [Slice.isEmpty, List.isEmpty_iff, Slice.trim_eq_nil_iff]
  rw [fragment?]
  split
  · next he =>
    have hall := hblank.1 he
    simp only [Option.isSome_none, Bool.false_eq_true, false_iff, not_exists, not_and,
      Bool.not_eq_false]
    exact hall
  · next he =>
    simp only [hblank, not_forall, Bool.not_eq_true] at he
    obtain ⟨cell, hm, hc⟩ := he
    exact ⟨fun _ => ⟨cell, hm, hc⟩, fun _ => rfl⟩

theorem quotes_of_isWhole (h : IsWhole (Checked.maskedChars text) slice)
    (hb : (ofString text).view.between? slice.start slice.stop = some slice) :
    (ofString text).Quotes slice.start slice.stop slice where
  between := hb
  trim := Checked.trim_eq h.isPart
  isBoundary := by
    rcases Classical.em (slice.trim.cells = []) with he | hne
    · exact .inl he
    · have hwhole := Checked.isWhole_trim h hne
      exact .inr ⟨hwhole.start, (Checked.inText_spec h.trim.isPart).2 ▸ hwhole.stop⟩
  fragment := Checked.fragment_eq h
  isSome := isSome_fragment? _ slice

/-- The masked text is as long as the text, covers it byte by byte, and whatever is cut out of it
between two characters is quoted from the text without fault. -/
theorem masked_overlays (text : String) :
    (maskText text).utf8ByteSize = text.utf8ByteSize ∧
      List.Forall₂ Cell.Masks (ofString text).masked (ofString text).cells ∧
      ∀ start stop, start ≤ stop → Cell.isBoundary (ofString text).masked start →
        Cell.isBoundary (ofString text).masked stop →
        ∃ slice, (ofString text).Quotes start stop slice := by
  refine ⟨?_, Mask.masks_runFrom .., fun start stop hle hs ht => ?_⟩
  · rw [← Cell.width_toList, maskText, String.toList_ofList, Mask.chars, Mask.width_runFrom,
      Cell.width_toList]
  · obtain ⟨slice, hb, hspan, hwhole⟩ := Slice.exists_between? hs ht hle
    obtain ⟨rfl, rfl⟩ := Span.mk.inj hspan
    exact ⟨slice, quotes_of_isWhole hwhole hb⟩

/-- The masked text can be cut where the text has the middle of a character. -/
theorem quotes_behind_half_char :
    Cell.isBoundary (ofString "x = \"é\" y").cells 6 = false ∧
      ∃ slice, (ofString "x = \"é\" y").Quotes 6 10 slice :=
  ⟨by decide +kernel, (masked_overlays "x = \"é\" y").2.2 6 10 (by decide) (by decide +kernel)
    (by decide +kernel)⟩

end Source

end CodeOutline
