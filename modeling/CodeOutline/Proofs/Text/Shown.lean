import CodeOutline.Proofs.Checked.Masked
import CodeOutline.Proofs.Delimiter.Aligned

namespace CodeOutline

open Slice (IsPart IsTail IsWhole)

theorem CharClass.isSpace_of_isWordStart {c : Char} (h : isWordStart c) : isSpace c = false := by
  simpa using of_isNameChar (!isSpace ·) (by decide +kernel) (isNameChar_of_isWordStart h)

theorem Text.trim_prefix {chars : List Char}
    (h : ∀ c ∈ chars.head?, CharClass.isSpace c = false) :
    (trim (String.ofList chars)).toList <+: chars := by
  have hleft : trimLeft chars = chars := by
    cases chars with
    | nil => rfl
    | cons c rest => exact List.dropWhile_cons_of_neg (by simpa using h c rfl)
  rw [trim, String.toList_ofList, String.toList_ofList, hleft, trimRight]
  have hsuffix := List.dropWhile_suffix CharClass.isSpace (l := chars.reverse)
  rwa [← List.reverse_prefix, List.reverse_reverse] at hsuffix

namespace Slice

variable {chars : List Char} {slice part whole inner after : Slice} {cell : Cell}
  {left right : List Cell} {byte : UInt8} {offset : Nat}

/-- Whether a character that is not blank begins at an offset of a slice. -/
def Shows (slice : Slice) (offset : Nat) : Prop :=
  ∃ left cell right, slice.cells = left ++ cell :: right ∧ offset = slice.start + left.length ∧
    cell.isBlank = false ∧ cell.char?.isSome

theorem Shows.of_isPart (h : Shows part offset) (hp : IsPart part whole) : Shows whole offset := by
  obtain ⟨left, cell, right, hc, rfl, hb, hs⟩ := h
  obtain ⟨before, after, hw, hstart⟩ := hp
  refine ⟨before ++ left, cell, right ++ after, ?_, ?_, hb, hs⟩
  · rw [hw, hc]
    simp
  · rw [hstart, List.length_append, Nat.add_assoc]

theorem Shows.bounds (h : Shows slice offset) : slice.start ≤ offset ∧ offset < slice.stop := by
  obtain ⟨left, cell, right, hc, rfl, _⟩ := h
  rw [stop, hc, List.length_append, List.length_cons]
  omega

theorem IsPart.shows (hp : IsPart slice (laid 0 chars)) (hc : slice.cells = left ++ cell :: right)
    (hb : cell.isBlank = false)
    (hw : Cell.isBoundary (Cell.layout chars) (slice.start + left.length)) :
    Shows slice (slice.start + left.length) := by
  refine ⟨left, cell, right, hc, rfl, hb, ?_⟩
  obtain ⟨before, after, hcells, hstart⟩ := hp
  have hlayout : Cell.layout chars = (before ++ left) ++ (cell :: right ++ after) := by
    rw [hc] at hcells
    exact hcells.trans (by simp)
  have hlength : slice.start + left.length = (before ++ left).length := by
    rw [hstart, laid_start, Nat.zero_add, List.length_append]
  rw [hlayout, hlength, Cell.isBoundary_append] at hw
  exact hw cell rfl

theorem IsWhole.shows_start (h : IsWhole chars slice) (hc : slice.cells = cell :: right)
    (hb : cell.isBlank = false) : Shows slice slice.start :=
  IsPart.shows h.isPart (show slice.cells = [] ++ cell :: right from hc) hb h.start

theorem IsPart.shows_of_stands (hp : IsPart slice (laid 0 chars))
    (hs : Delimiter.Stands byte slice.start offset slice.cells) (ha : byte.toNat < 128)
    (hb : CharClass.isBlank byte = false) : Shows slice offset := by
  obtain ⟨left, cell, right, hc, rfl, rfl⟩ := hs
  exact hp.shows hc hb (hp.isBoundary left hc ha).1

theorem IsPart.shows_startsWith {c : Char} (hp : IsPart slice (laid 0 chars)) (hc : c.toNat < 128)
    (hb : CharClass.isBlank c.val.toUInt8 = false) (hs : slice.startsWith c) :
    Shows slice slice.start := by
  have ha : c.val.toUInt8.toNat < 128 := by rwa [Cell.toNat_byte_of_ascii hc]
  have hstands : Delimiter.Stands c.val.toUInt8 slice.start slice.start slice.cells := by
    rw [startsWith] at hs
    cases hcells : slice.cells with
    | nil => rw [hcells] at hs; cases hs
    | cons cell rest =>
      rw [hcells] at hs
      exact .head (of_decide_eq_true hs)
  exact hp.shows_of_stands hstands ha hb

theorem IsPart.shows_block (hp : IsPart slice (laid 0 chars))
    (hb : slice.block? = some (inner, after)) : Shows slice inner.stop := by
  obtain ⟨close, hc, _⟩ := Option.map_eq_some_iff.1 hb
  obtain ⟨opening, cells, closing, rest, hs, ho, rfl⟩ := close?_spec hc
  rw [hs] at hp hb hc ⊢
  rw [block?_eq hc] at hb
  cases hb
  have hblank : closing.isBlank = false := by
    obtain ⟨_, hcloser⟩ := Delimiter.isOpener_of_closerOf ho
    simp only [Delimiter.isCloser, Bool.or_eq_true, decide_eq_true_eq] at hcloser
    rcases hcloser with (h | h) | h <;> rw [Cell.isBlank, h] <;> rfl
  have hstands : Delimiter.Stands closing.byte slice.start (slice.start + 1 + cells.length)
      (opening :: (cells ++ closing :: rest)) :=
    ⟨opening :: cells, closing, rest, rfl, rfl, by rw [List.length_cons]; omega⟩
  exact hp.shows_of_stands hstands (Delimiter.lt_of_closerOf ho).2 hblank

theorem trim_eq_nil_iff : slice.trim.cells = [] ↔ ∀ cell ∈ slice.cells, cell.isBlank := by
  rw [trim, List.reverse_eq_nil_iff, List.dropWhile_eq_nil_iff, cells_skipBlank]
  refine ⟨fun h => ?_, fun h cell hm => ?_⟩
  · have hskip : slice.cells.dropWhile Cell.isBlank = [] := by
      have hhead := List.head?_dropWhile_not Cell.isBlank slice.cells
      cases hc : slice.cells.dropWhile Cell.isBlank with
      | nil => rfl
      | cons cell rest =>
        rw [hc] at hhead h
        have hblank := h cell (List.mem_reverse.2 List.mem_cons_self)
        exact absurd (hhead.symm.trans hblank) Bool.false_ne_true
    exact List.dropWhile_eq_nil_iff.1 hskip
  · exact h cell (List.dropWhile_sublist _ |>.subset (List.mem_reverse.1 hm))

theorem start_trim (h : slice.trim.cells = []) : slice.trim.start = slice.stop := by
  have hempty : slice.skipBlank.cells = [] := by
    rw [cells_skipBlank]
    exact List.dropWhile_eq_nil_iff.2 (trim_eq_nil_iff.1 h)
  have hstop := (isTail_skipBlank slice).stop_eq
  rw [stop, hempty] at hstop
  exact hstop

theorem IsWhole.shows_trim (h : IsWhole chars part) (hne : part.trim.cells ≠ []) :
    Shows part part.trim.start := by
  obtain ⟨cell, rest, hc⟩ := List.exists_cons_of_ne_nil hne
  have hb := head?_trim part cell (by rw [hc]; rfl)
  exact (h.trim.shows_start hc hb).of_isPart (isPart_trim part)

/-- What a stretch begins with, or else what stands behind it, is shown. -/
theorem IsWhole.shows_trim_or (h : IsWhole chars part) (hp : IsPart part whole)
    (hs : Shows whole part.stop) : Shows whole part.trim.start := by
  by_cases hc : part.trim.cells = []
  · rwa [start_trim hc]
  · exact (h.shows_trim hc).of_isPart hp

theorem IsPart.shows_split (hp : IsPart slice (laid 0 chars)) (hw : IsPart slice whole)
    (hs : Shows whole slice.stop) (ha : byte.toNat < 128) (hb : CharClass.isBlank byte = false)
    (hm : part ∈ slice.split byte) : Shows whole part.stop := by
  rcases stop_of_mem_split hm with hstands | hstop
  · exact (hp.shows_of_stands hstands ha hb).of_isPart hw
  · exact hstop ▸ hs

theorem IsPart.shows_word (hp : IsPart slice (laid 0 chars)) (hc : slice.cells = cell :: right)
    (hw : cell.begins CharClass.isWordStart) : Shows slice slice.start := by
  obtain ⟨c, hchar, hstart⟩ := (Option.any_eq_true _ _).1 hw
  refine ⟨[], cell, right, hc, rfl, ?_, by rw [hchar]; rfl⟩
  have hm : cell ∈ Cell.layout chars := hp.subset (hc ▸ List.mem_cons_self)
  obtain ⟨d, _, hd⟩ := List.mem_flatMap.1 hm
  have he : d = c := by
    obtain ⟨byte, others, ho, _⟩ := Cell.ofChar_eq_cons d
    rw [ho, List.mem_cons, List.mem_map] at hd
    rcases hd with rfl | ⟨other, _, rfl⟩
    · exact Option.some.inj hchar
    · cases hchar
  rw [Cell.isBlank_of_mem_ofChar hd, he]
  exact CharClass.isAsciiSpace_of_isNameChar (CharClass.isNameChar_of_isWordStart hstart)

theorem IsPart.shows_word? {cls : Char → Bool} {name : Slice} (hp : IsPart slice (laid 0 chars))
    (hw : slice.word? cls = some (name, after)) : Shows slice slice.start := by
  obtain ⟨first, _, _, hc, _, _, hb, _⟩ := word?_append hw
  exact hp.shows_word hc hb

theorem IsPart.shows_opening? {cls : Char → Bool} {name list : Slice}
    (hp : IsPart slice (laid 0 chars)) (ho : slice.opening? cls = some (name, list)) :
    Shows slice slice.start := by
  rw [opening?, Option.bind_eq_some_iff] at ho
  obtain ⟨⟨name, after⟩, hw, _⟩ := ho
  exact hp.shows_word? hw

theorem IsPart.shows_heading? {heading : Heading} (hp : IsPart slice (laid 0 chars))
    (hh : slice.heading? = some heading) :
    Shows slice slice.start ∧ Shows slice heading.inner.stop := by
  rw [heading?, Option.bind_eq_some_iff] at hh
  obtain ⟨⟨name, list⟩, ho, hh⟩ := hh
  obtain ⟨⟨inner, after⟩, hb, rfl⟩ := Option.map_eq_some_iff.1 hh
  have hlist := (opening?_spec ho).1.isPart
  exact ⟨hp.shows_opening? ho, ((hlist.trans hp).shows_block hb).of_isPart hlist⟩

theorem IsPart.shows_find? (hp : IsPart slice (laid 0 chars)) (hf : slice.find? byte = some offset)
    (ha : byte.toNat < 128) (hb : CharClass.isBlank byte = false) :
    Shows slice (slice.toOffset offset).stop := by
  obtain ⟨hl, hr⟩ := find?_bounds hf
  have hstop : (slice.toOffset offset).stop = offset := by
    rw [stop, length_toOffset (Nat.le_of_lt hr)]
    exact Nat.add_sub_cancel' hl
  rw [hstop]
  exact hp.shows_of_stands (find?_spec hf) ha hb

end Slice

namespace Cell

variable {chars : List Char} {offset : Nat}

theorem exists_of_isBoundary (h : isBoundary (layout chars) offset) :
    ∃ front back, chars = front ++ back ∧ width front = offset := by
  obtain ⟨front, back, rfl, hle, hnext⟩ := exists_front chars offset
  refine ⟨front, back, rfl, Nat.le_antisymm hle (Nat.le_of_not_lt fun hlt => ?_)⟩
  rw [layout_append, isBoundary_append_right hle] at h
  cases back with
  | nil =>
    have hpos : offset - width front ≠ 0 := Nat.sub_ne_zero_of_lt hlt
    rw [layout_nil, isBoundary] at h
    exact hpos (of_decide_eq_true h)
  | cons c rest =>
    have hlt' := hnext c rfl
    have hinside : isBoundary (ofChar c ++ layout rest) (offset - width front) = false :=
      Mask.not_isBoundary_ofChar c _ (by omega) (by omega)
    exact Bool.false_ne_true (hinside.symm.trans h)

end Cell

/-- Whether a text reads as another one at an offset. -/
def ReadsAt (text : String) (offset : Nat) (part : String) : Prop :=
  ∃ before after : String, text = before ++ part ++ after ∧ before.utf8ByteSize = offset

/-- A text reads as a stretch of it where the stretch begins, and as what the stretch begins with. -/
theorem Slice.IsWhole.readsAt {chars : List Char} {slice : Slice} {part : String}
    (h : IsWhole chars slice) (hp : part.toList <+: Cell.chars slice.cells) :
    ReadsAt (String.ofList chars) slice.start part := by
  obtain ⟨front, back, rfl, hw⟩ := Cell.exists_of_isBoundary h.start
  obtain ⟨before, after, hc, hs⟩ := h.isPart
  rw [laid_start, Nat.zero_add] at hs
  have hcells : Cell.layout front ++ Cell.layout back = before ++ (slice.cells ++ after) :=
    (Cell.layout_append front back).symm.trans hc
  have hback := (List.append_inj hcells (hw.trans hs)).2
  obtain ⟨rest, hr⟩ := hp
  have hchars : back = part.toList ++ (rest ++ Cell.chars after) := by
    rw [← Cell.chars_layout back, hback, Cell.chars, List.filterMap_append, ← List.append_assoc, hr]
    rfl
  refine ⟨String.ofList front, String.ofList (rest ++ Cell.chars after), ?_, ?_⟩
  · rw [hchars, String.ofList_append, String.ofList_append, String.ofList_toList,
      String.append_assoc]
  · rw [← Cell.width_toList, String.toList_ofList, hw]

/-- What is not blank in the masked text is a character of the text itself. -/
theorem Slice.Shows.original {text : String} {offset : Nat}
    (h : (Source.ofString text).view.Shows offset) : offset < text.utf8ByteSize ∧
      Cell.isBoundary (Cell.layout text.toList) offset := by
  have hlt := h.bounds.2
  rw [Source.stop_view] at hlt
  obtain ⟨left, cell, right, hc, rfl, hb, hs⟩ := h
  have hcells : Cell.layout (Checked.maskedChars text) = left ++ cell :: right := hc
  have hget : (Cell.layout (Checked.maskedChars text))[left.length]? = some cell := by
    rw [hcells]
    simp
  have hboundary : Cell.isBoundary (Cell.layout (Checked.maskedChars text)) left.length := by
    rw [Cell.isBoundary, hget]
    exact hs
  have hstart : (Source.ofString text).view.start + left.length = left.length := Nat.zero_add _
  rw [hstart] at hlt ⊢
  exact ⟨hlt, Mask.isBoundary_of_runFrom hboundary ⟨_, cell, hget, hb, .inl rfl⟩⟩

end CodeOutline
