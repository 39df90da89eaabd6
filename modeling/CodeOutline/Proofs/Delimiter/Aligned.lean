import CodeOutline.Proofs.Delimiter.Found
import CodeOutline.Proofs.Delimiter.Scan
import CodeOutline.Proofs.Text.Aligned

namespace CodeOutline

theorem Cell.IsPadding.isBlank {blank : Cell} (h : IsPadding blank) : blank.isBlank :=
  (steady_isBlank blank h).trans rfl

namespace Delimiter

open Cell (Aligned IsPadding lineBreak)

variable {padded : Prop} {move : Nat → Nat} {position start depth : Nat}
  {left right : List Cell} {opener closer : UInt8}

theorem ne_of_isBlank {cell : Cell} {byte : UInt8} (h : cell.isBlank)
    (hb : CharClass.isBlank byte = false) : cell.byte ≠ byte := by
  rintro rfl
  exact absurd (hb.symm.trans h) Bool.false_ne_true

theorem not_isBlank_of_closerOf (h : closerOf opener = some closer) :
    CharClass.isBlank opener = false ∧ CharClass.isBlank closer = false := by
  simp only [closerOf] at h
  split at h
  · next he => cases h; subst he; decide
  · split at h
    · next he => cases h; subst he; decide
    · split at h
      · next he => cases h; subst he; decide
      · cases h

theorem closeFrom_aligned (hc : closerOf opener = some closer)
    (h : Aligned padded move position left right) :
    closeFrom opener closer depth (move position) right =
      (closeFrom opener closer depth position left).map move := by
  obtain ⟨ho, hx⟩ := not_isBlank_of_closerOf hc
  induction h generalizing depth with
  | nil => rfl
  | @cons position left right cell hm _ ih =>
    rw [closeFrom.eq_def, closeFrom.eq_def]
    simp only [← hm]
    split
    · exact ih
    · split
      · split
        · rfl
        · exact ih
      · exact ih
  | @pad position left right blank _ hb hm _ ih =>
    have hbreak : lineBreak.isBlank := rfl
    rw [closeFrom_other (ne_of_isBlank hb.isBlank ho) (ne_of_isBlank hb.isBlank hx),
      closeFrom_other (ne_of_isBlank hbreak ho) (ne_of_isBlank hbreak hx),
      closeFrom_other (ne_of_isBlank hbreak ho) (ne_of_isBlank hbreak hx), ← ih, hm]

theorem findFrom_aligned {terminator : UInt8} (ht : CharClass.isBlank terminator = false)
    (h : Aligned padded move position left right) :
    findFrom terminator depth (move position) right =
      (findFrom terminator depth position left).map move := by
  induction h generalizing depth with
  | nil => rfl
  | @cons position left right cell hm _ ih =>
    rw [findFrom.eq_def, findFrom.eq_def]
    simp only [← hm]
    split
    · exact ih
    · split
      · split
        · rfl
        · exact ih
      · split
        · rfl
        · exact ih
  | @pad position left right blank _ hb hm _ ih =>
    have hother {cell : Cell} (h : cell.isBlank) (position : Nat) (rest : List Cell) :
        findFrom terminator depth position (cell :: rest) =
          findFrom terminator depth (position + 1) rest :=
      findFrom_other (isInert_of_isBlank h) fun hx => ne_of_isBlank h ht hx.1
    rw [hother hb.isBlank, hother rfl, hother rfl, ← ih, hm]

theorem exists_splitCells (separator : UInt8) (depth : Nat) (cells : List Cell) :
    ∃ piece others, splitCells separator depth cells = piece :: others := by
  have hextend (cell : Cell) (pieces : List (List Cell)) :
      ∃ piece others, extend cell pieces = piece :: others := by
    cases pieces <;> exact ⟨_, _, rfl⟩
  cases cells with
  | nil => exact ⟨_, _, rfl⟩
  | cons cell rest =>
    rw [splitCells]
    split
    · exact hextend ..
    · split
      · exact hextend ..
      · split
        · exact ⟨_, _, rfl⟩
        · exact hextend ..

theorem place_extend (start : Nat) (cell : Cell) (piece : List Cell) (others : List (List Cell)) :
    place start (extend cell (piece :: others)) =
      ⟨start, cell :: piece⟩ :: place (start + 1 + piece.length + 1) others := by
  rw [extend, place, List.length_cons, Nat.add_comm piece.length, ← Nat.add_assoc]

theorem place_splitCells_aligned {separator : UInt8} (hs : CharClass.isBlank separator = false)
    (h : Aligned padded move position left right) :
    List.Forall₂ (Slice.Aligned padded move) (place position (splitCells separator depth left))
      (place (move position) (splitCells separator depth right)) := by
  induction h generalizing depth with
  | nil => exact .cons ⟨rfl, .nil _⟩ .nil
  | @cons position left right cell hm _ ih =>
    have hextend (depth : Nat) : List.Forall₂ (Slice.Aligned padded move)
        (place position (extend cell (splitCells separator depth left)))
        (place (move position) (extend cell (splitCells separator depth right))) := by
      have ih := @ih depth
      obtain ⟨piece, others, hl⟩ := exists_splitCells separator depth left
      obtain ⟨piece', others', hr⟩ := exists_splitCells separator depth right
      rw [hl, hr, hm, place, place] at ih
      rw [hl, hr, place_extend, place_extend]
      cases ih with
      | cons hfirst hothers => exact .cons ⟨rfl, .cons cell hm hfirst.cells⟩ hothers
    rw [splitCells, splitCells]
    split
    · exact hextend _
    · split
      · exact hextend _
      · split
        · refine .cons ⟨rfl, .nil _⟩ ?_
          have ih := @ih 0
          rw [hm] at ih
          exact ih
        · exact hextend _
  | @pad position left right blank hp hb hm _ ih =>
    have hother {cell : Cell} (h : cell.isBlank) (rest : List Cell) :
        splitCells separator depth (cell :: rest) =
          extend cell (splitCells separator depth rest) := by
      rw [splitCells_depthAfter fun _ hb => absurd hb (ne_of_isBlank h hs),
        depthAfter_inert (isInert_of_isBlank h)]
    have ih := @ih depth
    obtain ⟨piece, others, hl⟩ := exists_splitCells separator depth left
    obtain ⟨piece', others', hr⟩ := exists_splitCells separator depth right
    rw [hl, hr, hm, place, place] at ih
    rw [hother hb.isBlank, hother rfl, hother rfl, hl, hr, place_extend]
    have hplace : place (move position) (extend blank (extend lineBreak (piece' :: others'))) =
        ⟨move position, blank :: lineBreak :: piece'⟩ ::
          place (move position + 2 + piece'.length + 1) others' := by
      rw [extend, place_extend, List.length_cons]
      congr 2
      omega
    rw [hplace]
    cases ih with
    | cons hfirst hothers => exact .cons ⟨rfl, .pad hp hb hm hfirst.cells⟩ hothers

theorem endsStatement_of_isPadding {blank : Cell} (hb : IsPadding blank) (boundaries : Boundaries)
    (braces parens : Nat) : endsStatement boundaries braces parens blank.byte = false := by
  cases hb <;> simp [endsStatement]

theorem headsFrom_aligned {boundaries : Boundaries} {braces parens : Nat} {pending : Bool}
    (h : Aligned padded move position left right) :
    List.Forall₂ (Slice.Aligned padded move)
      (headsFrom boundaries braces parens pending position left)
      (headsFrom boundaries braces parens pending (move position) right) := by
  induction h generalizing braces parens pending with
  | nil => exact .nil
  | @cons position left right cell hm h ih =>
    simp only [headsFrom, ← hm]
    split
    · exact .cons ⟨rfl, .cons cell hm h⟩ ih
    · exact ih
  | @pad position left right blank hp hb hm h ih =>
    have hblank := hb.isBlank
    obtain ⟨hbraces, hparens⟩ := counts_of_isInert braces parens (isInert_of_isBlank hblank)
    have hbreak : (pending && !lineBreak.isBlank) = false := Bool.and_false _
    rw [headsFrom_skip hbreak, headsFrom_skip (by rw [hblank]; exact Bool.and_false _),
      endsStatement_of_isPadding hb, hbraces, hparens, Bool.false_or, headsFrom_skip hbreak,
      Nat.add_assoc, ← hm]
    exact ih

end Delimiter

namespace Slice.Aligned

variable {padded : Prop} {move : Nat → Nat} {slice slice' : Slice}

theorem close? (h : Aligned padded move slice slice') :
    slice'.close? = slice.close?.map move := by
  obtain ⟨start, cells⟩ := slice
  obtain ⟨start', cells'⟩ := slice'
  obtain ⟨rfl, h⟩ := h
  cases h with
  | nil => rfl
  | cons cell hm h =>
    simp only [Slice.close?]
    cases hc : Delimiter.closerOf cell.byte with
    | none => rfl
    | some closer =>
      simp only [Option.bind_some, ← hm]
      exact Delimiter.closeFrom_aligned hc h
  | pad _ hb =>
    rw [Slice.close?, Slice.close?]
    simp only [Delimiter.closerOf_of_isInert (Delimiter.isInert_of_isBlank hb.isBlank)]
    rfl

theorem find? (h : Aligned padded move slice slice') {terminator : UInt8}
    (ht : CharClass.isBlank terminator = false) :
    slice'.find? terminator = (slice.find? terminator).map move := by
  rw [Slice.find?, Slice.find?, h.start_eq]
  exact Delimiter.findFrom_aligned ht h.cells

theorem past (h : Aligned padded move slice slice') {byte : UInt8} {found : Nat}
    (hs : Delimiter.Stands byte slice.start found slice.cells)
    (hb : CharClass.isBlank byte = false) :
    Aligned padded move (slice.fromOffset (found + 1)) (slice'.fromOffset (move found + 1)) := by
  obtain ⟨left, cell, right, hc, rfl, rfl⟩ := hs
  have hstop : slice.stop = slice.start + left.length + 1 + right.length := by
    rw [stop, hc, List.length_append, List.length_cons]
    omega
  have hcells := h.cells
  rw [hc] at hcells
  obtain ⟨_, _, _, _, hrest⟩ := hcells.append_left
  obtain ⟨_, _, hm, _⟩ := hrest.exists_cons (by rintro rfl; cases hb)
  rw [← hm]
  exact h.fromOffset (by omega) (by omega)

theorem split (h : Aligned padded move slice slice') {separator : UInt8}
    (hs : CharClass.isBlank separator = false) :
    List.Forall₂ (Aligned padded move) (slice.split separator) (slice'.split separator) := by
  rw [Slice.split, Slice.split, h.start_eq]
  exact Delimiter.place_splitCells_aligned hs h.cells

theorem heads (h : Aligned padded move slice slice') (boundaries : Boundaries) :
    List.Forall₂ (Aligned padded move) (slice.heads boundaries) (slice'.heads boundaries) := by
  rw [Slice.heads, Slice.heads, h.start_eq]
  exact Delimiter.headsFrom_aligned h.cells

theorem filterMap_statementStarts (h : Aligned padded move slice slice') (boundaries : Boundaries)
    {α β : Type} {R : α → β → Prop} {read : Slice → Option α} {read' : Slice → Option β}
    (hread : ∀ head head', Aligned padded move head head' →
      Option.Rel R (read head) (read' head')) :
    List.Forall₂ R
      ((slice.statementStarts boundaries).filterMap fun start => read (slice.fromOffset start))
      ((slice'.statementStarts boundaries).filterMap fun start => read' (slice'.fromOffset start))
    := by
  rw [Slice.filterMap_statementStarts, Slice.filterMap_statementStarts]
  exact List.rel_filterMap (fun _ _ hr => hread _ _ hr) (h.heads boundaries)

theorem block? (h : Aligned padded move slice slice') :
    Option.Rel (fun found found' => Aligned padded move found.1 found'.1 ∧
      Aligned padded move found.2 found'.2) slice.block? slice'.block? := by
  have hclose := h.close?
  cases hc : slice.close? with
  | none =>
    rw [hc] at hclose
    rw [Slice.block?, Slice.block?, hc, hclose]
    exact .none
  | some close =>
    obtain ⟨start', cells'⟩ := slice'
    obtain ⟨opening, inner, closing, rest, hs, ho, rfl⟩ := close?_spec hc
    rw [hc] at hclose
    generalize slice.start = start at hs hclose
    subst hs
    obtain ⟨hstart, hcells⟩ := h
    obtain ⟨hl, hr⟩ := Delimiter.not_isBlank_of_closerOf ho
    obtain ⟨_, rfl, hfirst, hcells⟩ := hcells.exists_cons (by rintro rfl; cases hl)
    obtain ⟨front, _, rfl, hinner, hcells⟩ := hcells.append_left
    obtain ⟨after, rfl, hlast, hafter⟩ := hcells.exists_cons (by rintro rfl; cases hr)
    have hstop := hinner.move_length
    cases hstart
    rw [Option.map_some, hstop, hfirst] at hclose
    rw [Slice.block?_eq hc, Slice.block?_eq hclose]
    exact .some ⟨⟨hfirst.symm, hinner⟩, ⟨by rw [hlast, hstop, hfirst], hafter⟩⟩

end Slice.Aligned

end CodeOutline
