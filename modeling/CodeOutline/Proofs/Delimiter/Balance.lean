import CodeOutline.Proofs.Delimiter.Nesting
import CodeOutline.Proofs.Text.Part
import Mathlib.Data.Nat.Find
import Mathlib.Order.Bounds.Basic

namespace CodeOutline.Delimiter

/-- The kinds of brackets: what opens each of them and what closes it. -/
def kinds : List (UInt8 × UInt8) :=
  [(0x28, 0x29), (0x5B, 0x5D), (0x7B, 0x7D)]

/-- How often a byte stands in some cells. -/
def occurrences (byte : UInt8) (cells : List Cell) : Nat :=
  cells.countP fun cell => cell.byte = byte

/-- The cells of a text from an offset to a place behind it, both included. -/
def block (text : List Cell) (offset place : Nat) : List Cell :=
  (text.take (place + 1)).drop offset

/-- A kind of bracket opens at an offset. -/
def Opens (opener closer : UInt8) (text : List Cell) (offset : Nat) : Prop :=
  (opener, closer) ∈ kinds ∧ ∃ cell, text[offset]? = some cell ∧ cell.byte = opener

/-- From an offset to a later place, as many brackets of a kind are closed as are opened. -/
structure Balances (opener closer : UInt8) (text : List Cell) (offset place : Nat) : Prop where
  later : offset < place
  inside : place < text.length
  even : occurrences closer (block text offset place) =
    occurrences opener (block text offset place)

variable {opener closer : UInt8} {depth inner position offset close : Nat} {cell : Cell}
  {text left cells rest : List Cell}

theorem closerOf_eq_some_iff : closerOf opener = some closer ↔ (opener, closer) ∈ kinds := by
  constructor
  · intro h
    have ho := (isOpener_of_closerOf h).1
    simp only [isOpener, Bool.or_eq_true, decide_eq_true_eq] at ho
    rcases ho with (rfl | rfl) | rfl <;> cases h <;> decide
  · intro h
    simp only [kinds, List.mem_cons, List.not_mem_nil, or_false, Prod.mk.injEq] at h
    rcases h with ⟨rfl, rfl⟩ | ⟨rfl, rfl⟩ | ⟨rfl, rfl⟩ <;> rfl

theorem ne_of_mem_kinds (h : (opener, closer) ∈ kinds) : opener ≠ closer := by
  obtain ⟨ho, hc⟩ := isOpener_of_closerOf (closerOf_eq_some_iff.2 h)
  exact ne_of_isOpener_of_isCloser ho hc

theorem occurrences_append_singleton (byte : UInt8) (left : List Cell) (cell : Cell) :
    occurrences byte (left ++ [cell]) =
      occurrences byte left + if cell.byte = byte then 1 else 0 := by
  simp only [occurrences, List.countP_append, List.countP_singleton, decide_eq_true_eq]

theorem block_append (h : text.drop offset = left ++ cell :: rest) :
    block text offset (offset + left.length) = left ++ [cell] := by
  have hcount : offset + left.length + 1 - offset = left.length + 1 := by omega
  rw [block, List.drop_take, hcount, h, List.take_length_add_append]
  rfl

/-- Behind some cells of a block the text balances if it does so with the next cell. -/
theorem balances_iff (h : text.drop offset = left ++ cell :: rest) (hl : left ≠ []) :
    Balances opener closer text offset (offset + left.length) ↔
      occurrences closer (left ++ [cell]) = occurrences opener (left ++ [cell]) := by
  have hlength := congrArg List.length h
  rw [List.length_drop, List.length_append, List.length_cons] at hlength
  have hpos := List.length_pos_iff.2 hl
  constructor
  · intro hb
    rw [← block_append h]
    exact hb.even
  · intro he
    refine ⟨by omega, by omega, ?_⟩
    rw [block_append h]
    exact he

/-- A search that has come behind some cells of a block finds the first place where the block
balances, if it has not been passed and `depth` brackets are open besides the first. -/
theorem closeFrom_eq_some_iff (hne : opener ≠ closer) (h : text.drop offset = left ++ cells)
    (hl : left ≠ []) (hd : occurrences opener left = occurrences closer left + (depth + 1))
    (hb : ∀ place < offset + left.length, ¬ Balances opener closer text offset place) :
    closeFrom opener closer depth (offset + left.length) cells = some close ↔
      IsLeast {place | Balances opener closer text offset place} close := by
  induction cells generalizing left depth with
  | nil =>
    have hlength := congrArg List.length h
    rw [List.length_drop, List.append_nil] at hlength
    have hpos := List.length_pos_iff.2 hl
    refine ⟨nofun, fun hleast => ?_⟩
    have := hleast.1.inside
    exact absurd hleast.1 (hb close (by omega))
  | cons cell rest ih =>
    have hlength : offset + (left ++ [cell]).length = offset + left.length + 1 := by
      rw [List.length_append, List.length_singleton, Nat.add_assoc]
    have hbalances : Balances opener closer text offset (offset + left.length) ↔
        occurrences closer (left ++ [cell]) = occurrences opener (left ++ [cell]) :=
      balances_iff h hl
    have hstep {depth' : Nat} (hd' : occurrences opener (left ++ [cell]) =
        occurrences closer (left ++ [cell]) + (depth' + 1)) :
        closeFrom opener closer depth' (offset + left.length + 1) rest = some close ↔
          IsLeast {place | Balances opener closer text offset place} close := by
      rw [← hlength]
      refine ih (by rw [h, List.append_assoc]; rfl) (by simp) hd' fun place hlt => ?_
      rw [hlength] at hlt
      rcases Nat.lt_or_eq_of_le (Nat.le_of_lt_succ hlt) with hlt | rfl
      · exact hb place hlt
      · rw [hbalances]
        omega
    rw [occurrences_append_singleton, occurrences_append_singleton] at hbalances hstep
    by_cases ho : cell.byte = opener
    · rw [closeFrom_opener ho]
      rw [if_pos ho, if_neg (ho ▸ hne)] at hstep
      exact hstep (by omega)
    by_cases hc : cell.byte = closer
    · rw [if_neg ho, if_pos hc] at hbalances hstep
      cases depth with
      | zero =>
        have hbalance := hbalances.2 (by omega)
        have hleast : IsLeast {place | Balances opener closer text offset place}
            (offset + left.length) :=
          ⟨hbalance, fun place hp => Nat.le_of_not_lt fun hlt => hb place hlt hp⟩
        rw [closeFrom_closer ho hc, Option.some.injEq]
        exact ⟨fun he => he ▸ hleast, hleast.unique⟩
      | succ depth =>
        rw [closeFrom_closer_succ ho hc]
        exact hstep (by omega)
    · rw [closeFrom_other ho hc]
      rw [if_neg ho, if_neg hc] at hstep
      exact hstep (by omega)

theorem exists_closeFrom_of_lt (h : closeFrom opener closer depth position cells = some close)
    (hlt : inner < depth) :
    ∃ close' < close, closeFrom opener closer inner position cells = some close' := by
  induction cells generalizing depth inner position with
  | nil => cases h
  | cons cell rest ih =>
    by_cases ho : cell.byte = opener
    · rw [closeFrom_opener ho] at h ⊢
      exact ih h (Nat.succ_lt_succ hlt)
    by_cases hc : cell.byte = closer
    · cases depth with
      | zero => cases hlt
      | succ depth =>
        rw [closeFrom_closer_succ ho hc] at h
        cases inner with
        | zero => exact ⟨position, (closeFrom_bounds h).1, closeFrom_closer ho hc⟩
        | succ inner =>
          rw [closeFrom_closer_succ ho hc]
          exact ih h (Nat.lt_of_succ_lt_succ hlt)
    · rw [closeFrom_other ho hc] at h ⊢
      exact ih h hlt

theorem closeFrom_passes (h : closeFrom opener closer depth position (left ++ cells) = some close)
    (hle : position + left.length ≤ close) :
    ∃ depth', closeFrom opener closer depth' (position + left.length) cells = some close := by
  induction left generalizing depth position with
  | nil => exact ⟨depth, h⟩
  | cons cell left ih =>
    have hlength : position + (cell :: left).length = position + 1 + left.length := by
      rw [List.length_cons]
      omega
    rw [hlength] at hle ⊢
    rw [List.cons_append, closeFrom.eq_def] at h
    dsimp only at h
    split at h
    · exact ih h hle
    · split at h
      · split at h
        · cases h
          omega
        · exact ih h hle
      · exact ih h hle

/-- A bracket that opens before another one of its kind is closed is itself closed before. -/
theorem exists_closeFrom_inside
    (h : closeFrom opener closer depth position (left ++ cell :: rest) = some close)
    (ho : cell.byte = opener) (hle : position + left.length ≤ close) :
    ∃ close' < close,
      closeFrom opener closer 0 (position + left.length + 1) rest = some close' := by
  obtain ⟨depth', hpass⟩ := closeFrom_passes h hle
  rw [closeFrom_opener ho] at hpass
  exact exists_closeFrom_of_lt hpass (Nat.succ_pos depth')

theorem exists_closeFrom_of_isTail {whole : Slice} {place place' : Nat} {first : Cell}
    {rest' : List Cell} (h : Slice.IsTail ⟨place, first :: rest⟩ whole)
    (h' : Slice.IsTail ⟨place', cell :: rest'⟩ whole) (ho : cell.byte = opener)
    (hc : closeFrom opener closer depth (place + 1) rest = some close) (hlt : place < place')
    (hle : place' ≤ close) :
    ∃ close' < close, closeFrom opener closer 0 (place' + 1) rest' = some close' := by
  obtain ⟨before, hcells, hplace⟩ := h'.of_le h (Nat.le_of_lt hlt)
  simp only at hcells hplace
  cases before with
  | nil =>
    rw [List.length_nil] at hplace
    omega
  | cons _ before =>
    cases hcells
    rw [List.length_cons] at hplace
    have hbehind : place' = place + 1 + before.length := by omega
    rw [hbehind]
    exact exists_closeFrom_inside hc ho (hbehind ▸ hle)

theorem drop_of_getElem? (h : text[offset]? = some cell) :
    text.drop offset = cell :: text.drop (offset + 1) := by
  obtain ⟨hlt, rfl⟩ := List.getElem?_eq_some_iff.1 h
  exact List.drop_eq_getElem_cons hlt

theorem isTail_of_getElem? (h : text[offset]? = some cell) :
    Slice.IsTail ⟨offset, cell :: text.drop (offset + 1)⟩ ⟨0, text⟩ := by
  rw [← drop_of_getElem? h]
  have hle := Nat.le_of_lt (List.getElem?_eq_some_iff.1 h).1
  refine ⟨text.take offset, (List.take_append_drop ..).symm, ?_⟩
  simp only
  rw [List.length_take, Nat.min_eq_left hle, Nat.zero_add]

theorem Opens.closing_eq (h : Opens opener closer text offset) :
    closing text offset =
      match closeFrom opener closer 0 (offset + 1) (text.drop (offset + 1)) with
      | some close => .ok close
      | none => .error (.unterminated offset) := by
  obtain ⟨hk, cell, hget, rfl⟩ := h
  have hc := closerOf_eq_some_iff.2 hk
  rw [closing, drop_of_getElem? hget]
  cases hf : closeFrom cell.byte closer 0 (offset + 1) (text.drop (offset + 1)) with
  | none => simp only [hc, hf]
  | some close => simp only [hc, hf]

theorem Opens.closing_eq_ok_iff (h : Opens opener closer text offset) :
    closing text offset = .ok close ↔
      closeFrom opener closer 0 (offset + 1) (text.drop (offset + 1)) = some close := by
  rw [h.closing_eq]
  cases closeFrom opener closer 0 (offset + 1) (text.drop (offset + 1)) with
  | some _ => simp only [Except.ok.injEq, Option.some.injEq]
  | none => simp only [reduceCtorEq]

theorem Opens.closing_eq_error_iff (h : Opens opener closer text offset) {error : BlockError} :
    closing text offset = .error error ↔ error = .unterminated offset ∧
      closeFrom opener closer 0 (offset + 1) (text.drop (offset + 1)) = none := by
  rw [h.closing_eq]
  cases closeFrom opener closer 0 (offset + 1) (text.drop (offset + 1)) with
  | some _ => simp only [reduceCtorEq, and_false]
  | none => simp only [Except.error.injEq, eq_comm, and_true]

theorem Opens.closeFrom_eq_some_iff (h : Opens opener closer text offset) :
    closeFrom opener closer 0 (offset + 1) (text.drop (offset + 1)) = some close ↔
      IsLeast {place | Balances opener closer text offset place} close := by
  obtain ⟨hk, cell, hget, hb⟩ := h
  have hne := ne_of_mem_kinds hk
  have hopener := occurrences_append_singleton opener [] cell
  have hcloser := occurrences_append_singleton closer [] cell
  rw [if_pos hb] at hopener
  rw [if_neg (hb ▸ hne)] at hcloser
  have hdrop : text.drop offset = [cell] ++ text.drop (offset + 1) := drop_of_getElem? hget
  refine Delimiter.closeFrom_eq_some_iff hne hdrop (by simp) ?_ fun place hlt hp => ?_
  · rw [List.nil_append] at hopener hcloser
    rw [hopener, hcloser]
    rfl
  · have := hp.later
    rw [List.length_singleton] at hlt
    omega

theorem Opens.closeFrom_eq_none_iff (h : Opens opener closer text offset) :
    closeFrom opener closer 0 (offset + 1) (text.drop (offset + 1)) = none ↔
      ∀ place, ¬ Balances opener closer text offset place := by
  constructor
  · intro hnone place hp
    classical
    have hexists : ∃ place, Balances opener closer text offset place := ⟨place, hp⟩
    have hfound := h.closeFrom_eq_some_iff.2
      ⟨Nat.find_spec hexists, fun _ hq => Nat.find_min' hexists hq⟩
    rw [hnone] at hfound
    cases hfound
  · intro hnever
    rw [Option.eq_none_iff_forall_ne_some]
    exact fun close hc => hnever close (h.closeFrom_eq_some_iff.1 hc).1

theorem closing_of_not_opens (h : ∀ opener closer, ¬ Opens opener closer text offset) :
    closing text offset = .error (.notADelimiter offset) := by
  rw [closing]
  cases hd : text.drop offset with
  | nil => rfl
  | cons cell rest =>
    cases hc : closerOf cell.byte with
    | none => simp only [hc]
    | some closer =>
      have hget : text[offset]? = some cell := by
        rw [← List.head?_drop, hd]
        rfl
      exact absurd ⟨closerOf_eq_some_iff.1 hc, cell, hget, rfl⟩ (h cell.byte closer)

/-- Of two blocks of one kind the later one stands behind the other or ends before it. -/
theorem Opens.behind_or_inside {other : Nat} (h : Opens opener closer text offset)
    (h' : Opens opener closer text other) (hlt : offset < other)
    (hc : closing text offset = .ok close) :
    close < other ∨ ∃ close' < close, closing text other = .ok close' := by
  rcases Nat.lt_or_ge close other with hbehind | hle
  · exact .inl hbehind
  · rw [h.closing_eq_ok_iff] at hc
    obtain ⟨_, first, hfirst, _⟩ := id h
    obtain ⟨_, cell, hget, hb⟩ := id h'
    obtain ⟨close', hlt', hc'⟩ := exists_closeFrom_of_isTail (isTail_of_getElem? hfirst)
      (isTail_of_getElem? hget) hb hc hlt hle
    exact .inr ⟨close', hlt', h'.closing_eq_ok_iff.2 hc'⟩

theorem exists_opens (h : closing text offset ≠ .error (.notADelimiter offset)) :
    ∃ opener closer, Opens opener closer text offset := by
  by_contra hn
  exact h (closing_of_not_opens fun opener closer ho => hn ⟨opener, closer, ho⟩)

theorem closing_eq_ok_iff : closing text offset = .ok close ↔
    ∃ opener closer, Opens opener closer text offset ∧
      IsLeast {place | Balances opener closer text offset place} close := by
  constructor
  · intro hc
    obtain ⟨opener, closer, h⟩ := exists_opens (by rw [hc]; nofun)
    exact ⟨opener, closer, h, h.closeFrom_eq_some_iff.1 (h.closing_eq_ok_iff.1 hc)⟩
  · rintro ⟨opener, closer, h, hleast⟩
    exact h.closing_eq_ok_iff.2 (h.closeFrom_eq_some_iff.2 hleast)

theorem closing_eq_unterminated_iff : closing text offset = .error (.unterminated offset) ↔
    ∃ opener closer, Opens opener closer text offset ∧
      ∀ place, ¬ Balances opener closer text offset place := by
  constructor
  · intro hc
    obtain ⟨opener, closer, h⟩ := exists_opens (by rw [hc]; nofun)
    exact ⟨opener, closer, h, h.closeFrom_eq_none_iff.1 (h.closing_eq_error_iff.1 hc).2⟩
  · rintro ⟨opener, closer, h, hnever⟩
    exact h.closing_eq_error_iff.2 ⟨rfl, h.closeFrom_eq_none_iff.2 hnever⟩

theorem closing_eq_notADelimiter_iff : closing text offset = .error (.notADelimiter offset) ↔
    ∀ opener closer, ¬ Opens opener closer text offset := by
  refine ⟨fun hc opener closer h => ?_, closing_of_not_opens⟩
  cases (h.closing_eq_error_iff.1 hc).1

/-- What closes a bracket is the first place behind it where the brackets of its kind balance. It is
not closed if there is no such place. Of two blocks of one kind the later one stands behind the
other, or in it and closed before it is. -/
theorem closing_spec (text : List Cell) (offset : Nat) :
    (∀ close, closing text offset = .ok close ↔
      ∃ opener closer, Opens opener closer text offset ∧
        IsLeast {place | Balances opener closer text offset place} close) ∧
    (closing text offset = .error (.unterminated offset) ↔
      ∃ opener closer, Opens opener closer text offset ∧
        ∀ place, ¬ Balances opener closer text offset place) ∧
    (closing text offset = .error (.notADelimiter offset) ↔
      ∀ opener closer, ¬ Opens opener closer text offset) ∧
    ∀ opener closer other close, Opens opener closer text offset →
      Opens opener closer text other → offset < other → closing text offset = .ok close →
        close < other ∨ ∃ close' < close, closing text other = .ok close' :=
  ⟨fun _ => closing_eq_ok_iff, closing_eq_unterminated_iff, closing_eq_notADelimiter_iff,
    fun _ _ _ _ h h' => h.behind_or_inside h'⟩

/-- Parentheses that begin in a block and end behind it do not matter to its braces. -/
theorem closing_crossing_parens :
    let text := (Slice.ofString "\x7b(\x7b)\x7d;\x7d").cells
    closing text 1 = .ok 3 ∧ closing text 0 = .ok 6 ∧
      (6 < 2 ∨ ∃ close < 6, closing text 2 = .ok close) := by
  intro text
  have hclose : closing text 0 = .ok 6 := by decide +kernel
  refine ⟨by decide +kernel, hclose, ?_⟩
  have hkind : (0x7B, 0x7D) ∈ kinds := by decide
  exact (closing_spec text 0).2.2.2 0x7B 0x7D 2 6 ⟨hkind, _, rfl, by decide +kernel⟩
    ⟨hkind, _, rfl, by decide +kernel⟩ (by decide) hclose

end CodeOutline.Delimiter
