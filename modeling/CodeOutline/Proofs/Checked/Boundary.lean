import CodeOutline.Proofs.Delimiter.Found
import CodeOutline.Proofs.Outline.Part
import CodeOutline.Proofs.Text.Laid

namespace CodeOutline

namespace Cell

variable {chars front back : List Char} {left right : List Cell} {cell : Cell}

theorem isBoundary_append (left right : List Cell) :
    isBoundary (left ++ right) left.length ↔ ∀ cell ∈ right.head?, cell.char?.isSome := by
  cases right with
  | nil => simp [isBoundary]
  | cons cell right => simp [isBoundary]

theorem isBoundary_layout (front back : List Char) :
    isBoundary (layout (front ++ back)) (width front) := by
  rw [layout_append, width, isBoundary_append]
  intro cell hc
  obtain ⟨c, _, hs, _⟩ := head?_layout hc
  rw [hs]
  rfl

theorem exists_of_ascii (h : layout chars = left ++ cell :: right) (ha : cell.byte.toNat < 128) :
    ∃ front c back, chars = front ++ c :: back ∧ left = layout front ∧ ofChar c = [cell] := by
  induction chars generalizing left with
  | nil => exact absurd h (by simp)
  | cons c rest ih =>
    rw [layout_cons] at h
    rcases List.append_eq_append_iff.1 h with ⟨middle, rfl, hr⟩ | ⟨middle, hc, hr⟩
    · obtain ⟨front, d, back, rfl, rfl, hd⟩ := ih hr
      exact ⟨c :: front, d, back, rfl, rfl, hd⟩
    · cases middle with
      | nil =>
        obtain ⟨front, d, back, rfl, hf, hd⟩ := @ih [] hr.symm
        rw [List.append_nil] at hc
        refine ⟨c :: front, d, back, rfl, ?_, hd⟩
        rw [layout_cons, ← hf, hc, List.append_nil]
      | cons first middle =>
        obtain ⟨rfl, rfl⟩ := List.cons.inj hr
        have hm : cell ∈ ofChar c := hc ▸ List.mem_append_right _ List.mem_cons_self
        have hone := ofChar_ascii (eq_of_mem_ofChar hm ha).2
        rw [hone] at hc hm
        cases List.mem_singleton.1 hm
        cases left with
        | nil => exact ⟨[], c, rest, rfl, rfl, hone⟩
        | cons other left => exact absurd (congrArg List.length hc) (by simp)

theorem isBoundary_of_ascii (h : layout chars = left ++ cell :: right)
    (ha : cell.byte.toNat < 128) :
    isBoundary (layout chars) left.length ∧ isBoundary (layout chars) (left.length + 1) := by
  obtain ⟨front, c, back, rfl, rfl, hc⟩ := exists_of_ascii h ha
  have hone : width (front ++ [c]) = (layout front).length + 1 := by
    rw [width_append, width_cons, hc]
    rfl
  have hb := isBoundary_layout (front ++ [c]) back
  rw [List.append_assoc, hone] at hb
  exact ⟨isBoundary_layout front (c :: back), hb⟩

theorem lt_of_isBlank (h : cell.isBlank) : cell.byte.toNat < 128 := by
  simp only [isBlank, CharClass.isBlank, Bool.or_eq_true, decide_eq_true_eq] at h
  rcases h with (((h | h) | h) | h) | h <;> rw [h] <;> decide

end Cell

theorem Delimiter.lt_of_closerOf {opener closer : UInt8} (h : closerOf opener = some closer) :
    opener.toNat < 128 ∧ closer.toNat < 128 := by
  obtain ⟨ho, hc⟩ := isOpener_of_closerOf h
  simp only [isOpener, isCloser, Bool.or_eq_true, decide_eq_true_eq] at ho hc
  constructor
  · rcases ho with (rfl | rfl) | rfl <;> decide
  · rcases hc with (rfl | rfl) | rfl <;> decide

namespace Slice

/-- A stretch of a text neither end of which is inside a character. -/
structure IsWhole (chars : List Char) (slice : Slice) : Prop where
  isPart : slice.IsPart (laid 0 chars)
  start : Cell.isBoundary (Cell.layout chars) slice.start
  stop : Cell.isBoundary (Cell.layout chars) slice.stop

theorem isWhole_append (left middle right : List Char) :
    IsWhole (left ++ (middle ++ right)) (laid (Cell.width left) middle) where
  isPart := ⟨Cell.layout left, Cell.layout right, by simp only [laid, Cell.layout_append],
    (Nat.zero_add _).symm⟩
  start := Cell.isBoundary_layout left (middle ++ right)
  stop := by
    rw [laid_stop, ← Cell.width_append, ← List.append_assoc]
    exact Cell.isBoundary_layout (left ++ middle) right

theorem isWhole_laid (chars : List Char) : IsWhole chars (laid 0 chars) := by
  have h := isWhole_append [] chars []
  rwa [List.append_nil] at h

section

variable {chars : List Char} {slice part tail inner after : Slice} {left right : List Cell}
  {cell : Cell} {byte : UInt8} {offset : Nat}

theorem IsPart.isBoundary (h : slice.IsPart (laid 0 chars)) (left : List Cell)
    (hc : slice.cells = left ++ cell :: right) (ha : cell.byte.toNat < 128) :
    Cell.isBoundary (Cell.layout chars) (slice.start + left.length) ∧
      Cell.isBoundary (Cell.layout chars) (slice.start + left.length + 1) := by
  obtain ⟨before, after, hb, hs⟩ := h
  have hcells : Cell.layout chars = (before ++ left) ++ cell :: (right ++ after) := by
    rw [hc] at hb
    exact hb.trans (by simp)
  have hlength : slice.start + left.length = (before ++ left).length := by
    rw [hs, List.length_append, laid_start, Nat.zero_add]
  rw [hlength]
  exact Cell.isBoundary_of_ascii hcells ha

theorem IsWhole.of_isTail (h : IsWhole chars slice) (ht : IsTail tail slice)
    (hb : ∀ cell ∈ tail.cells.head?, cell.char?.isSome) : IsWhole chars tail := by
  refine ⟨ht.isPart.trans h.isPart, ?_, ht.stop_eq ▸ h.stop⟩
  cases hc : tail.cells with
  | nil =>
    have hstop := ht.stop_eq
    rw [Slice.stop, hc, List.length_nil, Nat.add_zero] at hstop
    rw [hstop]
    exact h.stop
  | cons cell rest =>
    obtain ⟨before, after, hw, hs⟩ := ht.isPart.trans h.isPart
    rw [laid_start, Nat.zero_add] at hs
    have hl : Cell.layout chars = before ++ (tail.cells ++ after) := hw
    rw [hl, hs, Cell.isBoundary_append, hc]
    rw [hc] at hb
    exact hb

theorem IsWhole.of_head (h : IsWhole chars slice) (ht : IsTail tail slice)
    (hc : tail.cells = cell :: right) (ha : cell.byte.toNat < 128) : IsWhole chars tail := by
  have hp := ht.isPart.trans h.isPart
  have hb := (hp.isBoundary [] hc ha).1
  exact ⟨hp, hb, ht.stop_eq ▸ h.stop⟩

theorem IsWhole.of_ascii (h : IsWhole chars slice) (hc : slice.cells = left ++ right)
    (ha : ∀ cell ∈ left, cell.byte.toNat < 128) :
    IsWhole chars ⟨slice.start + left.length, right⟩ := by
  have ht : IsTail ⟨slice.start + left.length, right⟩ slice := ⟨left, hc, rfl⟩
  refine ⟨ht.isPart.trans h.isPart, ?_, ht.stop_eq ▸ h.stop⟩
  rcases List.eq_nil_or_concat left with rfl | ⟨front, last, rfl⟩
  · exact h.start
  · rw [List.concat_eq_append] at hc ha ⊢
    rw [List.append_assoc] at hc
    have hlength : slice.start + (front ++ [last]).length = slice.start + front.length + 1 := by
      rw [List.length_append, List.length_singleton, Nat.add_assoc]
    rw [hlength]
    exact (h.isPart.isBoundary front hc (ha last List.mem_concat_self)).2

theorem IsWhole.toOffset (h : IsWhole chars slice) (ht : IsTail tail slice)
    (hb : Cell.isBoundary (Cell.layout chars) tail.start) :
    IsWhole chars (slice.toOffset tail.start) := by
  refine ⟨(isPart_toOffset ..).trans h.isPart, h.start, ?_⟩
  have hs := ht.isPart.start_le
  have hl := ht.stop_eq ▸ start_le_stop tail
  have hstop : (slice.toOffset tail.start).stop = tail.start := by
    rw [Slice.stop, length_toOffset hl]
    exact Nat.add_sub_cancel' hs
  rwa [hstop]

theorem IsWhole.skipBlank (h : IsWhole chars slice) : IsWhole chars slice.skipBlank := by
  exact h.of_ascii (takeWhile_append_drop_run ..) fun cell hm => Cell.lt_of_isBlank (List.mem_takeWhile_imp hm)

theorem IsWhole.next? (h : IsWhole chars slice) (hn : slice.next? = some tail) :
    IsWhole chars tail := by
  obtain ⟨rfl, _⟩ := next?_spec hn
  exact h.skipBlank

theorem IsWhole.drop_one (h : IsWhole chars slice) {c : Char} (hc : c.toNat < 128)
    (hs : slice.startsWith c) : IsWhole chars (slice.drop 1) := by
  obtain ⟨start, cells⟩ := slice
  cases cells with
  | nil => cases hs
  | cons cell rest =>
    have hb : cell.byte = c.val.toUInt8 := of_decide_eq_true hs
    refine h.of_ascii (show _ = [cell] ++ rest from rfl) fun other hm => ?_
    rw [List.mem_singleton.1 hm, hb, Cell.toNat_byte_of_ascii hc]
    exact hc

theorem IsWhole.of_startsWith (h : IsWhole chars slice) (ht : IsTail tail slice) {c : Char}
    (hc : c.toNat < 128) (hs : tail.startsWith c) : IsWhole chars tail := by
  obtain ⟨start, cells⟩ := tail
  cases cells with
  | nil => cases hs
  | cons cell rest =>
    have hb : cell.byte = c.val.toUInt8 := of_decide_eq_true hs
    refine h.of_head ht rfl ?_
    rw [hb, Cell.toNat_byte_of_ascii hc]
    exact hc

theorem IsWhole.fromStop (h : IsWhole chars slice) :
    IsWhole chars (slice.fromOffset slice.stop) := by
  have ht := isTail_fromOffset (start_le_stop slice) (Nat.le_refl _)
  refine ⟨ht.isPart.trans h.isPart, h.stop, ?_⟩
  rw [ht.stop_eq]
  exact h.stop

theorem IsWhole.word? (h : IsWhole chars slice) {cls : Char → Bool} {name : Slice}
    (hw : slice.word? cls = some (name, after)) : IsWhole chars name ∧ IsWhole chars after := by
  obtain ⟨hn, ha, hs, hstop, _⟩ := word?_spec hw
  obtain ⟨_, _, rest, _, _, rfl, _, _, hr⟩ := word?_append hw
  have hafter : IsWhole chars _ := h.of_isTail ha fun cell hm => by
    have hclass := hr cell hm
    rw [Cell.within] at hclass
    split at hclass
    · next hchar => rw [hchar]; rfl
    · cases hclass
  exact ⟨⟨hn.trans h.isPart, hs ▸ h.start, hstop ▸ hafter.start⟩, hafter⟩

theorem IsWhole.opening? (h : IsWhole chars slice) {cls : Char → Bool} {name list : Slice}
    (ho : slice.opening? cls = some (name, list)) : IsWhole chars name ∧ IsWhole chars list := by
  rw [Slice.opening?, Option.bind_eq_some_iff] at ho
  obtain ⟨⟨name, after⟩, hw, ho⟩ := ho
  obtain ⟨hs, he⟩ := Option.ite_none_right_eq_some.1 ho
  cases he
  obtain ⟨hname, hafter⟩ := h.word? hw
  exact ⟨hname, hafter.of_startsWith (isTail_skipSpace after) (by decide) hs⟩

theorem IsWhole.block? (h : IsWhole chars slice) (hb : slice.block? = some (inner, after)) :
    IsWhole chars inner ∧ IsWhole chars after := by
  obtain ⟨hinner, hafter, _⟩ := block?_spec hb
  obtain ⟨close, hc, _⟩ := Option.map_eq_some_iff.1 hb
  obtain ⟨opening, cells, closing, rest, hs, ho, rfl⟩ := close?_spec hc
  obtain ⟨hopen, hclose⟩ := Delimiter.lt_of_closerOf ho
  rw [hs] at h hb hinner hafter
  rw [block?_eq (hs ▸ hc)] at hb
  cases hb
  have hfirst := (h.isPart.isBoundary [] rfl hopen).2
  have hlast := h.isPart.isBoundary (opening :: cells) rfl hclose
  have hlength : slice.start + (opening :: cells).length = slice.start + 1 + cells.length := by
    rw [List.length_cons]
    omega
  rw [hlength] at hlast
  exact ⟨⟨hinner.trans h.isPart, hfirst, hlast.1⟩,
    ⟨hafter.isPart.trans h.isPart, hlast.2, hafter.stop_eq ▸ h.stop⟩⟩

theorem IsWhole.find? (h : IsWhole chars slice) (ha : byte.toNat < 128)
    (hf : slice.find? byte = some offset) :
    IsWhole chars (slice.toOffset offset) ∧ IsWhole chars (slice.fromOffset (offset + 1)) := by
  obtain ⟨hl, hr⟩ := find?_bounds hf
  obtain ⟨left, cell, right, hc, hb, rfl⟩ := find?_spec hf
  have hboundary := h.isPart.isBoundary left hc (hb ▸ ha)
  have ht := isTail_fromOffset hl (Nat.le_of_lt hr)
  have ht' := isTail_fromOffset (Nat.le_succ_of_le hl) hr
  exact ⟨h.toOffset ht hboundary.1,
    ⟨ht'.isPart.trans h.isPart, hboundary.2, ht'.stop_eq ▸ h.stop⟩⟩

/-- Blanks at the end are ASCII bytes, so what stands before them ends with a character. -/
theorem IsWhole.trim (h : IsWhole chars slice) : IsWhole chars slice.trim := by
  have hskip := h.skipBlank
  obtain ⟨kept, hk⟩ : ∃ kept, slice.skipBlank.cells.reverse.dropWhile Cell.isBlank = kept :=
    ⟨_, rfl⟩
  have hreverse := List.takeWhile_append_dropWhile (p := Cell.isBlank)
    (l := slice.skipBlank.cells.reverse)
  have hblank : ∀ cell ∈ slice.skipBlank.cells.reverse.takeWhile Cell.isBlank, cell.isBlank :=
    fun cell hm => List.mem_takeWhile_imp hm
  generalize slice.skipBlank.cells.reverse.takeWhile Cell.isBlank = blanks at hreverse hblank
  have hcells : slice.skipBlank.cells = kept.reverse ++ blanks.reverse := by
    rw [← hk, ← List.reverse_append, hreverse, List.reverse_reverse]
  refine ⟨(isPart_trim slice).trans h.isPart, hskip.start, ?_⟩
  have hstop : slice.trim.stop = slice.skipBlank.start + kept.reverse.length := by
    rw [Slice.trim, hk]
    rfl
  rw [hstop]
  cases hb : blanks.reverse with
  | nil =>
    rw [hb, List.append_nil] at hcells
    rw [← hcells]
    exact hskip.stop
  | cons first rest =>
    have hfirst : first ∈ blanks := List.mem_reverse.1 (hb ▸ List.mem_cons_self)
    rw [hb] at hcells
    exact (hskip.isPart.isBoundary kept.reverse hcells (Cell.lt_of_isBlank (hblank first hfirst))).1

theorem isWhole_place {separator : UInt8} {position : Nat} {cells : List Cell}
    {pieces : List (List Cell)} (ha : separator.toNat < 128)
    (h : Delimiter.Divides separator cells pieces) (hw : IsWhole chars ⟨position, cells⟩) :
    ∀ piece ∈ Delimiter.place position pieces, IsWhole chars piece := by
  induction h generalizing position with
  | last =>
    intro piece hm
    rw [List.mem_singleton.1 hm]
    exact hw
  | @next first rest cell others _ _ _ hb _ ih =>
    obtain ⟨hbefore, hbehind⟩ := hw.isPart.isBoundary first rfl (hb ▸ ha)
    have htail := isTail_behind position first cell rest
    intro piece hm
    rcases List.mem_cons.1 hm with rfl | hm
    · have hfirst : IsPart ⟨position, first⟩ ⟨position, first ++ cell :: rest⟩ :=
        ⟨[], cell :: rest, rfl, rfl⟩
      exact ⟨hfirst.trans hw.isPart, hw.start, hbefore⟩
    · exact ih ⟨htail.isPart.trans hw.isPart, hbehind, htail.stop_eq ▸ hw.stop⟩ piece hm

theorem IsWhole.split (h : IsWhole chars slice) {separator : UInt8} (ha : separator.toNat < 128)
    (hm : part ∈ slice.split separator) : IsWhole chars part :=
  isWhole_place ha (Delimiter.divides_splitCells separator slice.cells) h part hm

theorem lt_of_endsStatement {boundaries : Boundaries} {braces parens : Nat}
    (h : Delimiter.endsStatement boundaries braces parens byte) : byte.toNat < 128 := by
  simp only [Delimiter.endsStatement, Bool.and_eq_true, Bool.or_eq_true, decide_eq_true_eq] at h
  rcases h.2 with ((⟨rfl, _⟩ | ⟨rfl, _⟩) | ⟨rfl, _⟩) | ⟨⟨rfl, _⟩, _⟩ <;> decide

/-- A statement begins behind blanks that end the one before or begin the text. -/
theorem isWhole_of_mem_headsFrom {boundaries : Boundaries} {braces parens position : Nat}
    {pending : Bool} {cells : List Cell} {head : Slice}
    (hp : IsPart ⟨position, cells⟩ (laid 0 chars))
    (hstop : Cell.isBoundary (Cell.layout chars) (position + cells.length))
    (hb : pending → Cell.isBoundary (Cell.layout chars) position)
    (h : head ∈ Delimiter.headsFrom boundaries braces parens pending position cells) :
    IsWhole chars head := by
  induction cells generalizing braces parens pending position with
  | nil => cases h
  | cons cell rest ih =>
    have hrest := (isTail_cons position cell rest).isPart.trans hp
    have hstop' : Cell.isBoundary (Cell.layout chars) (position + 1 + rest.length) := by
      rwa [List.length_cons, Nat.add_comm rest.length, ← Nat.add_assoc] at hstop
    have hnext : (Delimiter.endsStatement boundaries braces parens cell.byte ||
        (pending && cell.isBlank)) → Cell.isBoundary (Cell.layout chars) (position + 1) := by
      intro hends
      rw [Bool.or_eq_true, Bool.and_eq_true] at hends
      have ha : cell.byte.toNat < 128 :=
        hends.elim lt_of_endsStatement fun hblank => Cell.lt_of_isBlank hblank.2
      exact (hp.isBoundary [] rfl ha).2
    simp only [Delimiter.headsFrom] at h
    split at h
    · next hhere =>
      rcases List.mem_cons.1 h with rfl | h
      · exact ⟨hp, hb (Bool.and_eq_true_iff.1 hhere).1, hstop⟩
      · exact ih hrest hstop' hnext h
    · exact ih hrest hstop' hnext h

theorem IsWhole.heads (h : IsWhole chars slice) {boundaries : Boundaries} {head : Slice}
    (hm : head ∈ slice.heads boundaries) : IsWhole chars head :=
  isWhole_of_mem_headsFrom h.isPart h.stop (fun _ => h.start) hm

end

end Slice

end CodeOutline
