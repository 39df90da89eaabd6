import CodeOutline.Proofs.Delimiter.Nesting

namespace CodeOutline

namespace Delimiter

variable {byte opener closer terminator : UInt8} {depth position found : Nat} {cell : Cell}
  {cells rest : List Cell}

/-- The byte stands at the place that is found. -/
def Stands (byte : UInt8) (position found : Nat) (cells : List Cell) : Prop :=
  ∃ left cell right, cells = left ++ cell :: right ∧ cell.byte = byte ∧
    found = position + left.length

theorem Stands.head (h : cell.byte = byte) : Stands byte position position (cell :: rest) :=
  ⟨[], cell, rest, rfl, h, rfl⟩

theorem Stands.cons (h : Stands byte (position + 1) found rest) :
    Stands byte position found (cell :: rest) := by
  obtain ⟨left, standing, right, rfl, hb, rfl⟩ := h
  exact ⟨cell :: left, standing, right, rfl, hb, by rw [List.length_cons]; omega⟩

theorem stands_closeFrom (h : closeFrom opener closer depth position cells = some found) :
    Stands closer position found cells := by
  induction cells generalizing depth position with
  | nil => cases h
  | cons cell rest ih =>
    rw [closeFrom.eq_def] at h
    dsimp only at h
    split at h
    · exact (ih h).cons
    · split at h
      · next hb =>
        split at h
        · cases h
          exact .head hb
        · exact (ih h).cons
      · exact (ih h).cons

theorem stands_findFrom (h : findFrom terminator depth position cells = some found) :
    Stands terminator position found cells := by
  induction cells generalizing depth position with
  | nil => cases h
  | cons cell rest ih =>
    rw [findFrom.eq_def] at h
    dsimp only at h
    split at h
    · exact (ih h).cons
    · split at h
      · split at h
        · cases h
        · exact (ih h).cons
      · split at h
        · next hb =>
          cases h
          exact .head hb.1
        · exact (ih h).cons

theorem Stands.of_append {left : List Cell} (h : Stands byte (position + left.length) found cells)
    (right : List Cell) : Stands byte position found (left ++ (cells ++ right)) := by
  obtain ⟨before, standing, after, rfl, hb, rfl⟩ := h
  refine ⟨left ++ before, standing, after ++ right, ?_, hb, ?_⟩
  · simp only [List.append_assoc, List.cons_append]
  · rw [List.length_append]
    omega

/-- How many brackets a text opens, of whatever kinds. -/
def openers (cells : List Cell) : Nat :=
  cells.countP fun cell => isOpener cell.byte

def closers (cells : List Cell) : Nat :=
  cells.countP fun cell => isCloser cell.byte

/-- With some brackets open before it, a text closes all of them and those it opens itself, and a
terminator stands in it only where a bracket is open. -/
structure Shelters (terminator : UInt8) (depth : Nat) (cells : List Cell) : Prop where
  opened : ∀ left, left <+: cells → closers left ≤ depth + openers left
  inside : ∀ left cell, left ++ [cell] <+: cells → cell.byte = terminator →
    closers left < depth + openers left
  closed : closers cells = depth + openers cells

theorem openers_cons (cell : Cell) (rest : List Cell) :
    openers (cell :: rest) = openers [cell] + openers rest := by
  rw [← List.singleton_append, openers, List.countP_append]
  rfl

theorem closers_cons (cell : Cell) (rest : List Cell) :
    closers (cell :: rest) = closers [cell] + closers rest := by
  rw [← List.singleton_append, closers, List.countP_append]
  rfl

theorem shelters_nil : Shelters terminator 0 [] where
  opened left hp := by
    rw [List.prefix_nil.1 hp]
    exact Nat.le_refl _
  inside left cell hp := absurd (List.prefix_nil.1 hp) (List.append_ne_nil_of_right_ne_nil _ nofun)
  closed := rfl

theorem Shelters.cons {depth' : Nat} (hd : depth + openers [cell] = closers [cell] + depth')
    (ht : cell.byte = terminator → 0 < depth) (h : Shelters terminator depth' rest) :
    Shelters terminator depth (cell :: rest) where
  opened left hp := by
    rcases List.prefix_cons_iff.1 hp with rfl | ⟨left, rfl, hrest⟩
    · exact Nat.zero_le _
    · have := h.opened left hrest
      rw [openers_cons, closers_cons]
      omega
  inside left last hp hl := by
    cases left with
    | nil =>
      obtain ⟨rfl, _⟩ := List.cons_prefix_cons.1 hp
      exact Nat.lt_of_lt_of_le (ht hl) (Nat.le_add_right _ _)
    | cons first left =>
      obtain ⟨rfl, hrest⟩ := List.cons_prefix_cons.1 hp
      have := h.inside left last hrest hl
      rw [openers_cons, closers_cons]
      omega
  closed := by
    have := h.closed
    rw [openers_cons, closers_cons]
    omega

theorem counts_of_isOpener (h : isOpener cell.byte) : openers [cell] = 1 ∧ closers [cell] = 0 := by
  simp only [openers, closers, List.countP_singleton, h, not_isCloser_of_isOpener h, if_true,
    Bool.false_eq_true, if_false, and_self]

theorem counts_of_closing (h : isCloser cell.byte) : openers [cell] = 0 ∧ closers [cell] = 1 := by
  simp only [openers, closers, List.countP_singleton, h, not_isOpener_of_isCloser h, if_true,
    Bool.false_eq_true, if_false, and_self]

theorem counts_of_inert (h : isInert cell.byte) : openers [cell] = 0 ∧ closers [cell] = 0 := by
  rw [isInert_iff] at h
  simp only [openers, closers, List.countP_singleton, h.1, h.2, Bool.false_eq_true, if_false,
    and_self]

/-- Unless a closer meets no opener, the count of open brackets is exact. -/
theorem depthAfter_eq (h : isCloser cell.byte → 0 < depth) :
    depth + openers [cell] = closers [cell] + depthAfter depth cell.byte := by
  rcases byte_cases cell.byte with ho | hc | hi
  · have := counts_of_isOpener ho
    rw [depthAfter_opener ho]
    omega
  · have := counts_of_closing hc
    have := h hc
    rw [depthAfter_closer hc]
    omega
  · have := counts_of_inert hi
    rw [depthAfter_inert hi]
    omega

/-- What stands before a terminator that is found shelters it in brackets. -/
theorem exists_of_findFrom (ht : isInert terminator)
    (h : findFrom terminator depth position cells = some found) :
    ∃ left cell right, cells = left ++ cell :: right ∧ cell.byte = terminator ∧
      found = position + left.length ∧ Shelters terminator depth left := by
  induction cells generalizing depth position with
  | nil => cases h
  | cons cell rest ih =>
    rcases outer_cases terminator depth cell.byte with ⟨rfl, hb⟩ | ⟨rfl, hc⟩ | ⟨hinside, hopen⟩
    · rw [findFrom_terminator (hb ▸ ht) hb] at h
      cases h
      exact ⟨[], cell, rest, rfl, hb, rfl, shelters_nil⟩
    · rw [findFrom_unmatched hc] at h
      cases h
    · rw [findFrom_depthAfter hinside hopen] at h
      obtain ⟨left, last, right, rfl, hb, rfl, hshelters⟩ := ih h
      refine ⟨cell :: left, last, right, rfl, hb, ?_, hshelters.cons (depthAfter_eq hopen) hinside⟩
      rw [List.length_cons]
      omega

def depthOver (depth : Nat) (cells : List Cell) : Nat :=
  cells.foldl (fun depth cell => depthAfter depth cell.byte) depth

/-- The last cells of a text open more brackets than they close, so what follows stands in one. -/
def LeavesOpen (cells : List Cell) : Prop :=
  ∃ inner, inner <:+ cells ∧ closers inner < openers inner

/-- With some brackets open before it, a text closes only these and those it opens itself. -/
def Covers (depth : Nat) (cells : List Cell) : Prop :=
  ∀ left, left <+: cells → closers left ≤ depth + openers left

theorem depthOver_cons (depth : Nat) (cell : Cell) (rest : List Cell) :
    depthOver depth (cell :: rest) = depthOver (depthAfter depth cell.byte) rest :=
  rfl

/-- At least the brackets are open that the last cells leave open, and of some last cells, or of the
whole text, exactly these. -/
theorem depthOver_spec (depth : Nat) (cells : List Cell) :
    (depth + openers cells ≤ closers cells + depthOver depth cells) ∧
    (depth + openers cells = closers cells + depthOver depth cells ∨
      ∃ inner, inner <:+ cells ∧ openers inner = closers inner + depthOver depth cells) := by
  induction cells generalizing depth with
  | nil => exact ⟨Nat.le_of_eq (Nat.add_comm ..), .inl (Nat.add_comm ..)⟩
  | cons cell rest ih =>
    obtain ⟨hle, heq⟩ := ih (depthAfter depth cell.byte)
    rw [depthOver_cons, openers_cons, closers_cons]
    have hlater : (∃ inner, inner <:+ rest ∧
        openers inner = closers inner + depthOver (depthAfter depth cell.byte) rest) →
        ∃ inner, inner <:+ cell :: rest ∧
          openers inner = closers inner + depthOver (depthAfter depth cell.byte) rest :=
      fun ⟨inner, hs, hi⟩ => ⟨inner, hs.trans (List.suffix_cons ..), hi⟩
    by_cases hz : isCloser cell.byte ∧ depth = 0
    · obtain ⟨hc, rfl⟩ := hz
      have hcounts := counts_of_closing hc
      have hdepth : depthAfter 0 cell.byte = 0 := depthAfter_closer hc
      refine ⟨by omega, .inr ?_⟩
      rcases heq with heq | heq
      · exact ⟨rest, List.suffix_cons .., by omega⟩
      · exact hlater heq
    · have := depthAfter_eq fun hc => Nat.pos_of_ne_zero fun h => hz ⟨hc, h⟩
      exact ⟨by omega, heq.imp (fun h => by omega) hlater⟩

theorem leavesOpen_iff : LeavesOpen cells ↔ 0 < depthOver 0 cells := by
  constructor
  · rintro ⟨inner, ⟨before, rfl⟩, hlt⟩
    have hle := (depthOver_spec (depthOver 0 before) inner).1
    rw [depthOver, List.foldl_append]
    change 0 < depthOver (depthOver 0 before) inner
    omega
  · intro hpos
    rcases (depthOver_spec 0 cells).2 with heq | ⟨inner, hs, heq⟩
    · exact ⟨cells, List.suffix_rfl, by omega⟩
    · exact ⟨inner, hs, by omega⟩

theorem covers_nil (depth : Nat) : Covers depth [] := by
  intro left hp
  rw [List.prefix_nil.1 hp]
  exact Nat.zero_le _

theorem covers_cons (h : isCloser cell.byte → 0 < depth) :
    Covers depth (cell :: rest) ↔ Covers (depthAfter depth cell.byte) rest := by
  have hdepth := depthAfter_eq h
  constructor
  · intro hc left hp
    have := hc (cell :: left) (List.cons_prefix_cons.2 ⟨rfl, hp⟩)
    rw [openers_cons, closers_cons] at this
    omega
  · intro hc left hp
    rcases List.prefix_cons_iff.1 hp with rfl | ⟨left, rfl, hrest⟩
    · exact Nat.zero_le _
    · have := hc left hrest
      rw [openers_cons, closers_cons]
      omega

end Delimiter

namespace Slice

variable {slice : Slice}

theorem close?_spec {close : Nat} (h : slice.close? = some close) :
    ∃ opening inner closing rest,
      slice = ⟨slice.start, opening :: (inner ++ closing :: rest)⟩ ∧
        Delimiter.closerOf opening.byte = some closing.byte ∧
        close = slice.start + 1 + inner.length := by
  obtain ⟨start, cells⟩ := slice
  cases cells with
  | nil => cases h
  | cons opening cells =>
    obtain ⟨closer, ho, hf⟩ := Option.bind_eq_some_iff.1 h
    obtain ⟨inner, closing, rest, rfl, rfl, rfl⟩ := Delimiter.stands_closeFrom hf
    exact ⟨opening, inner, closing, rest, rfl, ho, rfl⟩

theorem find?_spec {terminator : UInt8} {found : Nat} (h : slice.find? terminator = some found) :
    Delimiter.Stands terminator slice.start found slice.cells :=
  Delimiter.stands_findFrom h

end Slice

end CodeOutline
