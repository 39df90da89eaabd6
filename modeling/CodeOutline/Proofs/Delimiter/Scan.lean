import CodeOutline.Proofs.Delimiter.Heads
import CodeOutline.Proofs.Text.Part

namespace CodeOutline.Delimiter

variable {closer terminator : UInt8} {stack stack' inner : List UInt8} {left right : List Cell}
  {cells : List Cell} {position found : Nat} {cell : Cell}

theorem due_opener (h : closerOf cell.byte = some closer) (stack : List UInt8)
    (rest : List Cell) : due stack (cell :: rest) = due (closer :: stack) rest := by
  simp only [due, h]

theorem due_closer (h : isCloser cell.byte) (stack : List UInt8) (rest : List Cell) :
    due (cell.byte :: stack) (cell :: rest) = due stack rest := by
  simp only [due, closerOf_of_isCloser h, h, if_true]

theorem due_other (h : isInert cell.byte) (stack : List UInt8) (rest : List Cell) :
    due stack (cell :: rest) = due stack rest := by
  simp only [due, closerOf_of_isInert h, isCloser_of_isInert h, Bool.false_eq_true, if_false]

/-- Where a nested text goes on, the closer that is due ends a nested text. -/
theorem exists_closing (h : due (inner ++ closer :: stack) cells = some []) :
    ∃ left closing right, cells = left ++ closing :: right ∧ due inner left = some [] ∧
      closing.byte = closer ∧ due stack right = some [] := by
  induction cells generalizing inner with
  | nil =>
    cases inner <;> cases h
  | cons cell rest ih =>
    rcases due_cons h with ⟨other, hc, hr⟩ | ⟨outer, hc, ho, hr⟩ | ⟨hi, hr⟩
    · rw [← List.cons_append] at hr
      obtain ⟨left, closing, right, rfl, hl, hb, hs⟩ := ih hr
      exact ⟨cell :: left, closing, right, rfl, (due_opener hc ..).trans hl, hb, hs⟩
    · cases inner with
      | nil =>
        cases ho
        exact ⟨[], cell, rest, rfl, rfl, rfl, hr⟩
      | cons other inner =>
        cases ho
        obtain ⟨left, closing, right, rfl, hl, hb, hs⟩ := ih hr
        exact ⟨cell :: left, closing, right, rfl, (due_closer hc ..).trans hl, hb, hs⟩
    · obtain ⟨left, closing, right, rfl, hl, hb, hs⟩ := ih hr
      exact ⟨cell :: left, closing, right, rfl, (due_other hi ..).trans hl, hb, hs⟩

theorem IsNested.exists_closing (h : IsNested (cell :: cells))
    (hc : closerOf cell.byte = some closer) : ∃ left closing right,
      cells = left ++ closing :: right ∧ IsNested left ∧ closing.byte = closer ∧
        IsNested right := by
  rw [IsNested, due_opener hc, ← List.nil_append [closer]] at h
  exact Delimiter.exists_closing h

/-- The closer due next was due before, or is that of the last bracket left open. -/
theorem due_opening (h : due stack left = some (closer :: outer)) :
    (∃ popped, stack = popped ++ closer :: outer ∧ due popped left = some []) ∨
    ∃ before opening inner, left = before ++ opening :: inner ∧
      closerOf opening.byte = some closer ∧ IsNested inner := by
  induction left generalizing stack with
  | nil =>
    cases h
    exact .inl ⟨[], rfl, rfl⟩
  | cons cell rest ih =>
    have hlater : (∃ before opening inner, rest = before ++ opening :: inner ∧
          closerOf opening.byte = some closer ∧ IsNested inner) →
        ∃ before opening inner, cell :: rest = before ++ opening :: inner ∧
          closerOf opening.byte = some closer ∧ IsNested inner := by
      rintro ⟨before, opening, inner, rfl, hb⟩
      exact ⟨cell :: before, opening, inner, rfl, hb⟩
    rcases due_cons h with ⟨other, hc, hr⟩ | ⟨others, hc, rfl, hr⟩ | ⟨hi, hr⟩
    · refine (ih hr).elim ?_ fun hl => .inr (hlater hl)
      rintro ⟨popped, he, hp⟩
      cases popped with
      | nil =>
        cases he
        exact .inr ⟨[], cell, rest, rfl, hc, hp⟩
      | cons next popped =>
        cases he
        exact .inl ⟨popped, rfl, (due_opener hc ..).trans hp⟩
    · refine (ih hr).imp ?_ hlater
      rintro ⟨popped, rfl, hp⟩
      exact ⟨cell.byte :: popped, rfl, (due_closer hc ..).trans hp⟩
    · refine (ih hr).imp ?_ hlater
      rintro ⟨popped, rfl, hp⟩
      exact ⟨popped, rfl, (due_other hi ..).trans hp⟩

theorem closing_nested {before inner : List Cell} {opening last : Cell}
    (ho : closerOf opening.byte = some last.byte) (hn : IsNested inner) (rest : List Cell) :
    closing (before ++ opening :: (inner ++ last :: rest)) before.length =
      .ok (before.length + 1 + inner.length) := by
  have hs := closeFrom_due ho hn (last :: rest) 0 (before.length + 1)
  have hb := isOpener_of_closerOf ho
  rw [List.count_nil, Nat.add_zero,
    closeFrom_closer (ne_of_isOpener_of_isCloser hb.1 hb.2).symm rfl] at hs
  rw [closing, List.drop_left]
  simp only [ho, hs]

/-- A terminator that a search finds stands outside brackets. -/
theorem findFrom_due_spec (h : due stack cells = some [])
    (hf : findFrom terminator stack.length position cells = some found) :
    ∃ left cell right, cells = left ++ cell :: right ∧ found = position + left.length ∧
      isInert cell.byte ∧ cell.byte = terminator ∧ due stack left = some [] := by
  induction cells generalizing stack position with
  | nil => cases hf
  | cons cell rest ih =>
    have hlength (left : List Cell) : position + (cell :: left).length =
        position + 1 + left.length := by
      rw [List.length_cons]
      omega
    rcases due_cons h with ⟨other, hc, hr⟩ | ⟨outer, hc, rfl, hr⟩ | ⟨hi, hr⟩
    · rw [findFrom_opener (isOpener_of_closerOf hc).1] at hf
      obtain ⟨left, last, right, rfl, rfl, hb⟩ := ih hr hf
      rw [← hlength, ← due_opener hc] at *
      exact ⟨cell :: left, last, right, rfl, rfl, hb⟩
    · rw [List.length_cons, findFrom_closer hc] at hf
      obtain ⟨left, last, right, rfl, rfl, hb⟩ := ih hr hf
      rw [← hlength, ← due_closer hc] at *
      exact ⟨cell :: left, last, right, rfl, rfl, hb⟩
    · by_cases ht : cell.byte = terminator ∧ stack.length = 0
      · have hs : stack = [] := List.eq_nil_of_length_eq_zero ht.2
        subst hs
        rw [List.length_nil, findFrom_terminator hi ht.1] at hf
        cases hf
        exact ⟨[], cell, rest, rfl, rfl, hi, ht.1, rfl⟩
      · rw [findFrom_other hi ht] at hf
        obtain ⟨left, last, right, rfl, rfl, hb⟩ := ih hr hf
        rw [← hlength, ← due_other hi] at *
        exact ⟨cell :: left, last, right, rfl, rfl, hb⟩

theorem findFrom_step (h : due stack [cell] = some stack')
    (ht : isInert cell.byte → ¬ (cell.byte = terminator ∧ stack.length = 0)) (rest : List Cell) :
    findFrom terminator stack.length position (cell :: rest) =
      findFrom terminator stack'.length (position + 1) rest := by
  rcases due_cons h with ⟨closer, hc, hr⟩ | ⟨outer, hc, rfl, hr⟩ | ⟨hi, hr⟩
  · cases hr
    exact findFrom_opener (isOpener_of_closerOf hc).1
  · cases hr
    exact findFrom_closer hc
  · cases hr
    exact findFrom_other hi (ht hi)

theorem startsFrom_cons (boundaries : Boundaries) (braces parens : Nat) (pending : Bool)
    (position : Nat) (cell : Cell) (rest : List Cell) :
    startsFrom boundaries braces parens pending position (cell :: rest) =
      (if pending && !cell.isBlank then [position] else []) ++
        startsFrom boundaries (bracesAfter braces cell.byte) (parensAfter parens cell.byte)
          (endsStatement boundaries braces parens cell.byte || (pending && cell.isBlank))
          (position + 1) rest := by
  rw [startsFrom]
  split <;> rfl

theorem lt_of_mem_startsFrom {boundaries : Boundaries} {braces parens start : Nat} {pending : Bool}
    (h : start ∈ startsFrom boundaries braces parens pending position cells) :
    start < position + cells.length := by
  induction cells generalizing braces parens pending position with
  | nil => cases h
  | cons cell rest ih =>
    rw [startsFrom_cons, List.mem_append] at h
    rw [List.length_cons]
    rcases h with h | h
    · split at h
      · rw [List.mem_singleton.1 h]
        omega
      · cases h
    · have := ih h
      omega

theorem pairwise_startsFrom (boundaries : Boundaries) (braces parens : Nat) (pending : Bool)
    (position : Nat) (cells : List Cell) :
    (startsFrom boundaries braces parens pending position cells).Pairwise (· < ·) := by
  induction cells generalizing braces parens pending position with
  | nil => exact List.Pairwise.nil
  | cons cell rest ih =>
    rw [startsFrom_cons, List.pairwise_append]
    refine ⟨?_, ih .., ?_⟩
    · split
      · exact List.pairwise_singleton ..
      · exact List.Pairwise.nil
    · intro left hl right hr
      have := le_of_mem_startsFrom hr
      split at hl
      · rw [List.mem_singleton.1 hl]
        omega
      · cases hl

/-- The statement starts at the top level with the given closers due. -/
def startsDue (stack : List UInt8) (pending : Bool) (position : Nat) (cells : List Cell) :
    List Nat :=
  startsFrom .topLevel (stack.count 0x7D) (stack.count 0x29 + stack.count 0x5D) pending position
    cells

/-- Whether a byte ends a statement at the top level with the given closers due. -/
def endsDue (stack : List UInt8) (byte : UInt8) : Bool :=
  endsStatement .topLevel (stack.count 0x7D) (stack.count 0x29 + stack.count 0x5D) byte

/-- The counts of a scan are those of the closers that are due. -/
theorem counts_due (h : due stack [cell] = some stack') :
    bracesAfter (stack.count 0x7D) cell.byte = stack'.count 0x7D ∧
      parensAfter (stack.count 0x29 + stack.count 0x5D) cell.byte =
        stack'.count 0x29 + stack'.count 0x5D := by
  rcases due_cons h with ⟨closer, hc, hr⟩ | ⟨outer, hc, rfl, hr⟩ | ⟨hi, hr⟩
  · cases hr
    simpa using counts_of_closerOf 0 0 stack hc
  · cases hr
    simpa using counts_of_isCloser 0 0 _ hc
  · cases hr
    exact counts_of_isInert _ _ hi

theorem startsDue_cons (h : due stack [cell] = some stack') (pending : Bool) (position : Nat)
    (rest : List Cell) :
    startsDue stack pending position (cell :: rest) =
      (if pending && !cell.isBlank then [position] else []) ++
        startsDue stack' (endsDue stack cell.byte || (pending && cell.isBlank)) (position + 1)
          rest := by
  obtain ⟨hbraces, hparens⟩ := counts_due h
  rw [startsDue, startsFrom_cons, hbraces, hparens]
  rfl

theorem startsDue_append (h : due stack left = some stack') (pending : Bool) (position : Nat) :
    ∃ pending', ∀ right, startsDue stack pending position (left ++ right) =
      startsDue stack pending position left ++
        startsDue stack' pending' (position + left.length) right := by
  induction left generalizing stack pending position with
  | nil =>
    cases h
    exact ⟨pending, fun right => rfl⟩
  | cons cell left ih =>
    have hlength : position + (cell :: left).length = position + 1 + left.length := by
      rw [List.length_cons]
      omega
    obtain ⟨middle, hm, hr⟩ := exists_due_of_cons h
    obtain ⟨pending', ih⟩ := ih hr (endsDue stack cell.byte || (pending && cell.isBlank))
      (position + 1)
    refine ⟨pending', fun right => ?_⟩
    rw [List.cons_append, startsDue_cons hm, startsDue_cons hm, ih, hlength, List.append_assoc]

theorem endsStatement_topLevel_iff {braces parens : Nat} {byte : UInt8} :
    endsStatement .topLevel braces parens byte ↔
      parens = 0 ∧ (byte = 0x7D ∧ braces ≤ 1 ∨ byte = 0x3B ∧ braces = 0) := by
  simp only [endsStatement, reduceCtorEq, decide_false, Bool.false_or, Bool.and_false,
    Bool.false_and, Bool.or_false, Bool.and_eq_true, Bool.or_eq_true, decide_eq_true_eq]

theorem endsStatement_nested_iff {braces parens : Nat} {byte : UInt8} :
    endsStatement .nested braces parens byte ↔
      parens = 0 ∧ (byte = 0x3B ∨ byte = 0x7B ∨ byte = 0x7D) := by
  simp [endsStatement, or_comm]

theorem eq_of_endsDue {byte : UInt8} (h : endsDue stack byte) :
    byte = 0x7D ∨ byte = 0x3B :=
  (endsStatement_topLevel_iff.1 h).2.imp And.left And.left

theorem mem_of_due {byte : UInt8} (h : due stack [cell] = some stack') (hm : byte ∈ stack') :
    closerOf cell.byte = some byte ∨ byte ∈ stack := by
  rcases due_cons h with ⟨closer, hc, hr⟩ | ⟨outer, _, rfl, hr⟩ | ⟨_, hr⟩
  · cases hr
    rcases List.mem_cons.1 hm with rfl | hm
    · exact .inl hc
    · exact .inr hm
  · cases hr
    exact .inr (List.mem_cons_of_mem _ hm)
  · cases hr
    exact .inr hm

theorem isCloser_of_due (hs : ∀ byte ∈ stack, isCloser byte) (h : due stack left = some stack') :
    ∀ byte ∈ stack', isCloser byte := by
  induction left generalizing stack with
  | nil =>
    cases h
    exact hs
  | cons cell rest ih =>
    obtain ⟨middle, hm, hr⟩ := exists_due_of_cons h
    refine ih (fun byte hb => ?_) hr
    rcases mem_of_due hm hb with hc | hb
    · exact (isOpener_of_closerOf hc).2
    · exact hs byte hb

theorem eq_nil_of_endsDue (hs : ∀ byte ∈ stack, isCloser byte) (h : due stack [cell] = some stack')
    (he : endsDue stack cell.byte) : stack' = [] := by
  have hnil {stack : List UInt8} (hs : ∀ byte ∈ stack, isCloser byte)
      (hb : stack.count 0x7D = 0) (hp : stack.count 0x29 + stack.count 0x5D = 0) : stack = [] := by
    cases stack with
    | nil => rfl
    | cons byte others =>
      have hc := hs byte List.mem_cons_self
      simp only [isCloser, Bool.or_eq_true, decide_eq_true_eq] at hc
      rcases hc with (rfl | rfl) | rfl <;> simp at hb hp
  obtain ⟨hp, ⟨hx, hb⟩ | ⟨hx, hb⟩⟩ := endsStatement_topLevel_iff.1 he
  · rcases due_cons h with ⟨closer, hc, hr⟩ | ⟨outer, hc, rfl, hr⟩ | ⟨hi, hr⟩
    · rw [hx] at hc
      cases hc
    · cases hr
      rw [hx] at hb hp
      rw [List.count_cons_self] at hb
      refine hnil (fun byte hm => hs byte (List.mem_cons_of_mem _ hm)) (by omega) ?_
      simpa using hp
    · rw [hx] at hi
      cases hi
  · rcases due_cons h with ⟨closer, hc, hr⟩ | ⟨outer, hc, rfl, hr⟩ | ⟨hi, hr⟩
    · rw [hx] at hc
      cases hc
    · rw [hx] at hc
      cases hc
    · cases hr
      exact hnil hs hb hp

theorem isInert_of_isBlank (h : cell.isBlank) : isInert cell.byte := by
  simp only [Cell.isBlank, CharClass.isBlank, Bool.or_eq_true, decide_eq_true_eq] at h
  rcases h with (((h | h) | h) | h) | h <;> rw [h] <;> rfl

/-- Every start at the top level stands outside brackets, at a byte that is not blank. -/
theorem exists_of_mem_startsDue {pending : Bool} {start : Nat}
    (hs : ∀ byte ∈ stack, isCloser byte) (hp : pending → stack = [])
    (h : due stack cells = some []) (hm : start ∈ startsDue stack pending position cells) :
    ∃ left cell right, cells = left ++ cell :: right ∧ start = position + left.length ∧
      due stack left = some [] ∧ cell.isBlank = false := by
  induction cells generalizing stack pending position with
  | nil => cases hm
  | cons cell rest ih =>
    obtain ⟨middle, hmiddle, hr⟩ := exists_due_of_cons h
    rw [startsDue_cons hmiddle, List.mem_append] at hm
    rcases hm with hm | hm
    · split at hm
      · next hpending =>
        rw [Bool.and_eq_true, Bool.not_eq_true'] at hpending
        rw [List.mem_singleton.1 hm, hp hpending.1]
        exact ⟨[], cell, rest, rfl, rfl, rfl, hpending.2⟩
      · cases hm
    · have hmiddles := isCloser_of_due hs hmiddle
      have hpending : (endsDue stack cell.byte || (pending && cell.isBlank)) → middle = [] := by
        intro he
        rw [Bool.or_eq_true, Bool.and_eq_true] at he
        rcases he with he | ⟨he, hblank⟩
        · exact eq_nil_of_endsDue hs hmiddle he
        · rw [hp he] at hmiddle
          exact Option.some.inj (hmiddle.symm.trans (due_other (isInert_of_isBlank hblank) ..))
      obtain ⟨left, last, right, rfl, rfl, hl, hb⟩ := ih hmiddles hpending hr hm
      refine ⟨cell :: left, last, right, rfl, ?_, ?_, hb⟩
      · rw [List.length_cons]
        omega
      · rw [← List.singleton_append, due_append, hmiddle]
        exact hl

end CodeOutline.Delimiter

namespace CodeOutline.Slice

theorem isTail_of_mem_headsFrom {boundaries : Boundaries} {braces parens position : Nat}
    {pending : Bool} {cells : List Cell} {head : Slice}
    (h : head ∈ Delimiter.headsFrom boundaries braces parens pending position cells) :
    IsTail head ⟨position, cells⟩ := by
  induction cells generalizing braces parens pending position with
  | nil => cases h
  | cons cell rest ih =>
    simp only [Delimiter.headsFrom] at h
    split at h
    · rcases List.mem_cons.1 h with rfl | h
      · exact IsTail.refl _
      · exact (ih h).trans (isTail_cons ..)
    · exact (ih h).trans (isTail_cons ..)

theorem isTail_of_mem_heads {boundaries : Boundaries} {head slice : Slice}
    (h : head ∈ slice.heads boundaries) : IsTail head slice :=
  isTail_of_mem_headsFrom h

theorem start_lt_of_mem_headsFrom {boundaries : Boundaries} {braces parens position : Nat}
    {pending : Bool} {cells : List Cell} {head : Slice}
    (h : head ∈ Delimiter.headsFrom boundaries braces parens pending position cells) :
    head.start < head.stop := by
  induction cells generalizing braces parens pending position with
  | nil => cases h
  | cons cell rest ih =>
    simp only [Delimiter.headsFrom] at h
    split at h
    · rcases List.mem_cons.1 h with rfl | h
      · exact Nat.lt_add_of_pos_right (Nat.succ_pos _)
      · exact ih h
    · exact ih h

theorem start_lt_of_mem_heads {boundaries : Boundaries} {head slice : Slice}
    (h : head ∈ slice.heads boundaries) : head.start < head.stop :=
  start_lt_of_mem_headsFrom h

theorem start_mem_of_mem_heads {boundaries : Boundaries} {head slice : Slice}
    (h : head ∈ slice.heads boundaries) : head.start ∈ slice.statementStarts boundaries := by
  rw [← map_start_heads]
  exact List.mem_map_of_mem h

theorem pairwise_heads (slice : Slice) (boundaries : Boundaries) :
    (slice.heads boundaries).Pairwise fun left right => left.start < right.start := by
  rw [← List.pairwise_map, map_start_heads, statementStarts_eq]
  exact Delimiter.pairwise_startsFrom ..

end CodeOutline.Slice
