import CodeOutline.Delimiter.Boundary
import CodeOutline.Proofs.Delimiter.Nesting
import Mathlib.Data.List.Basic

namespace CodeOutline

namespace Delimiter

/-- The starts from `position` on; `pending` says that the next byte that is not blank is one. -/
def startsFrom (boundaries : Boundaries) (braces parens : Nat) (pending : Bool) (position : Nat) :
    List Cell → List Nat
  | [] => []
  | cell :: rest =>
    let others := startsFrom boundaries (bracesAfter braces cell.byte)
      (parensAfter parens cell.byte)
      (endsStatement boundaries braces parens cell.byte || (pending && cell.isBlank)) (position + 1)
      rest
    if pending && !cell.isBlank then position :: others else others

/-- The text from each start on. -/
def headsFrom (boundaries : Boundaries) (braces parens : Nat) (pending : Bool) (position : Nat) :
    List Cell → List Slice
  | [] => []
  | cell :: rest =>
    let others := headsFrom boundaries (bracesAfter braces cell.byte) (parensAfter parens cell.byte)
      (endsStatement boundaries braces parens cell.byte || (pending && cell.isBlank)) (position + 1)
      rest
    if pending && !cell.isBlank then ⟨position, cell :: rest⟩ :: others else others

variable {boundaries : Boundaries} {braces parens position : Nat} {pending : Bool} {cell : Cell}
  {left rest : List Cell} {stack stack' : List UInt8}

theorem map_start_headsFrom (cells : List Cell) :
    (headsFrom boundaries braces parens pending position cells).map Slice.start =
      startsFrom boundaries braces parens pending position cells := by
  induction cells generalizing braces parens pending position with
  | nil => rfl
  | cons cell rest ih =>
    simp only [headsFrom, startsFrom]
    split
    · exact congrArg (position :: ·) ih
    · exact ih

theorem le_of_mem_startsFrom {cells : List Cell} {start : Nat}
    (h : start ∈ startsFrom boundaries braces parens pending position cells) :
    position ≤ start := by
  induction cells generalizing braces parens pending position with
  | nil => cases h
  | cons cell rest ih =>
    simp only [startsFrom] at h
    split at h
    · rcases List.mem_cons.1 h with rfl | h
      · exact Nat.le_refl _
      · exact Nat.le_of_succ_le (ih h)
    · exact Nat.le_of_succ_le (ih h)

theorem fromOffset_cons {start : Nat} (h : position + 1 ≤ start) :
    (Slice.mk position (cell :: rest)).fromOffset start =
      (Slice.mk (position + 1) rest).fromOffset start := by
  have hs : start - position = start - (position + 1) + 1 := by omega
  simp only [Slice.fromOffset, hs, List.drop_succ_cons]

theorem map_fromOffset_startsFrom (cells : List Cell) :
    (startsFrom boundaries braces parens pending position cells).map
        (Slice.mk position cells).fromOffset =
      headsFrom boundaries braces parens pending position cells := by
  induction cells generalizing braces parens pending position with
  | nil => rfl
  | cons cell rest ih =>
    have hrest {braces parens pending} :
        (startsFrom boundaries braces parens pending (position + 1) rest).map
          (Slice.mk position (cell :: rest)).fromOffset =
        (startsFrom boundaries braces parens pending (position + 1) rest).map
          (Slice.mk (position + 1) rest).fromOffset := by
      apply List.map_congr_left
      intro start hm
      exact fromOffset_cons (le_of_mem_startsFrom hm)
    simp only [headsFrom, startsFrom]
    split
    · rw [List.map_cons, hrest, ih]
      exact congrArg (· :: _) (Slice.fromOffset_start ⟨position, cell :: rest⟩)
    · rw [hrest]
      exact ih

theorem nextSolid?_nil (position offset : Nat) : (Slice.mk position []).nextSolid? offset = none := by
  simp [Slice.nextSolid?, Slice.fromOffset, Slice.skipBlank, Slice.drop, Slice.isEmpty]

theorem nextSolid?_cons {offset : Nat} (h : position + 1 ≤ offset) :
    (Slice.mk position (cell :: rest)).nextSolid? offset =
      (Slice.mk (position + 1) rest).nextSolid? offset := by
  rw [Slice.nextSolid?, fromOffset_cons h]
  rfl

theorem nextSolid?_solid (h : cell.isBlank = false) :
    (Slice.mk position (cell :: rest)).nextSolid? position = some position := by
  have hskip : (Slice.mk position ([] ++ cell :: rest)).skipBlank = ⟨position, cell :: rest⟩ := by
    apply Slice.skipBlank_append (fun _ hm => absurd hm List.not_mem_nil)
    rintro _ ⟨⟩
    exact h
  rw [Slice.nextSolid?, Slice.fromOffset_start ⟨position, cell :: rest⟩]
  exact congrArg (fun rest : Slice => if rest.isEmpty then none else some rest.start) hskip

theorem nextSolid?_blank (h : cell.isBlank) :
    (Slice.mk position (cell :: rest)).nextSolid? position =
      (Slice.mk (position + 1) rest).nextSolid? (position + 1) := by
  have hskip : (Slice.mk position (cell :: rest)).skipBlank =
      (Slice.mk (position + 1) rest).skipBlank := by
    simp only [Slice.skipBlank, Slice.run, Slice.drop, List.takeWhile_cons_of_pos h,
      List.length_cons, List.drop_succ_cons, Nat.add_assoc, Nat.add_comm 1]
  rw [Slice.nextSolid?, Slice.nextSolid?, Slice.fromOffset_start ⟨position, cell :: rest⟩,
    Slice.fromOffset_start ⟨position + 1, rest⟩, hskip]

theorem le_of_nextSolid? {slice : Slice} {offset start : Nat}
    (h : slice.nextSolid? offset = some start) : offset ≤ start := by
  rw [Slice.nextSolid?] at h
  split at h
  · cases h
  · cases h
    exact Nat.le_add_right ..

theorem endsFrom_cons (boundaries : Boundaries) (braces parens position : Nat) (cell : Cell)
    (rest : List Cell) : endsFrom boundaries braces parens position (cell :: rest) =
      (if endsStatement boundaries braces parens cell.byte then [position + 1] else []) ++
        endsFrom boundaries (bracesAfter braces cell.byte) (parensAfter parens cell.byte)
          (position + 1) rest := by
  rw [endsFrom]
  split <;> rfl

theorem lt_of_mem_endsFrom {cells : List Cell} {offset : Nat}
    (h : offset ∈ endsFrom boundaries braces parens position cells) : position < offset := by
  induction cells generalizing braces parens position with
  | nil => cases h
  | cons cell rest ih =>
    rw [endsFrom] at h
    split at h
    · rcases List.mem_cons.1 h with rfl | h
      · exact Nat.lt_succ_self position
      · exact Nat.lt_of_succ_lt (ih h)
    · exact Nat.lt_of_succ_lt (ih h)

theorem loop_eraseReps (first : Nat) (others found : List Nat) :
    List.eraseRepsBy.loop (· == ·) first others found =
      found.reverse ++ (first :: others).eraseReps := by
  rw [List.eraseReps, List.eraseRepsBy]
  induction others generalizing first found with
  | nil => simp [List.eraseRepsBy.loop]
  | cons next others ih =>
    rw [List.eraseRepsBy.loop, List.eraseRepsBy.loop]
    split
    · exact ih first found
    · rw [ih next (first :: found), ih next [first], List.reverse_cons, List.append_assoc]
      rfl

theorem eraseReps_cons_self (first : Nat) (others : List Nat) :
    (first :: first :: others).eraseReps = (first :: others).eraseReps := by
  rw [List.eraseReps, List.eraseRepsBy, List.eraseRepsBy.loop, beq_self_eq_true]
  rfl

theorem eraseReps_cons_of_lt {first : Nat} {others : List Nat} (h : ∀ next ∈ others, first < next) :
    (first :: others).eraseReps = first :: others.eraseReps := by
  cases others with
  | nil => rfl
  | cons next others =>
    have hne : (first == next) = false := beq_false_of_ne (Nat.ne_of_lt (h next List.mem_cons_self))
    rw [List.eraseReps, List.eraseRepsBy, List.eraseRepsBy.loop, hne]
    exact loop_eraseReps next others [first]

/-- Where a statement may begin behind each of the boundaries, `position` being one if `pending`. -/
def solidsFrom (boundaries : Boundaries) (braces parens : Nat) (pending : Bool) (position : Nat)
    (cells : List Cell) : List Nat :=
  ((if pending then [position] else []) ++
    endsFrom boundaries braces parens position cells).filterMap (Slice.mk position cells).nextSolid?

theorem solidsFrom_pending (pending : Bool) (position : Nat) (cells : List Cell) :
    solidsFrom boundaries braces parens pending position cells =
      (if pending then ((Slice.mk position cells).nextSolid? position).toList else []) ++
        solidsFrom boundaries braces parens false position cells := by
  cases pending with
  | false => rfl
  | true => cases h : (Slice.mk position cells).nextSolid? position <;> simp [solidsFrom, h]

theorem solidsFrom_false_cons (position : Nat) (cell : Cell) (rest : List Cell) :
    solidsFrom boundaries braces parens false position (cell :: rest) =
      solidsFrom boundaries (bracesAfter braces cell.byte) (parensAfter parens cell.byte)
        (endsStatement boundaries braces parens cell.byte) (position + 1) rest := by
  rw [solidsFrom, solidsFrom, ← endsFrom_cons]
  exact List.filterMap_congr fun offset hm => nextSolid?_cons (lt_of_mem_endsFrom hm)

theorem lt_of_mem_solidsFrom {cells : List Cell} {start : Nat}
    (h : start ∈ solidsFrom boundaries braces parens false position cells) : position < start := by
  obtain ⟨offset, ho, hs⟩ := List.mem_filterMap.1 h
  exact Nat.lt_of_lt_of_le (lt_of_mem_endsFrom ho) (le_of_nextSolid? hs)

theorem eraseReps_repeated (start : Option Nat) (again : Bool) (others : List Nat) :
    (start.toList ++ ((if again then start.toList else []) ++ others)).eraseReps =
      (start.toList ++ others).eraseReps := by
  cases again with
  | false => rfl
  | true =>
    cases start with
    | none => rfl
    | some start => exact eraseReps_cons_self start others

/-- A start is pending where a boundary lies and only blanks have come since. -/
theorem eraseReps_solidsFrom (pending : Bool) (position : Nat) (cells : List Cell) :
    (solidsFrom boundaries braces parens pending position cells).eraseReps =
      startsFrom boundaries braces parens pending position cells := by
  induction cells generalizing braces parens pending position with
  | nil =>
    rw [solidsFrom, List.filterMap_eq_nil_iff.2 fun offset _ => nextSolid?_nil position offset]
    rfl
  | cons cell rest ih =>
    rw [startsFrom, ← ih]
    cases pending with
    | false =>
      rw [solidsFrom_false_cons]
      simp
    | true =>
      rw [solidsFrom_pending]
      cases hb : cell.isBlank with
      | false =>
        rw [if_pos rfl, nextSolid?_solid hb]
        refine (eraseReps_cons_of_lt fun start => lt_of_mem_solidsFrom).trans ?_
        rw [solidsFrom_false_cons]
        simp
      | true =>
        rw [if_pos rfl, nextSolid?_blank hb, solidsFrom_false_cons, solidsFrom_pending,
          eraseReps_repeated, Bool.and_self, Bool.or_true, solidsFrom_pending true]
        rfl

end Delimiter

/-- One scan finds the starts. -/
theorem Slice.statementStarts_eq (boundaries : Boundaries) (slice : Slice) :
    slice.statementStarts boundaries =
      Delimiter.startsFrom boundaries 0 0 true slice.start slice.cells :=
  Delimiter.eraseReps_solidsFrom true slice.start slice.cells

/-- The text of a slice from each of its statement starts on. -/
def Slice.heads (boundaries : Boundaries) (slice : Slice) : List Slice :=
  Delimiter.headsFrom boundaries 0 0 true slice.start slice.cells

theorem Slice.map_start_heads (boundaries : Boundaries) (slice : Slice) :
    (slice.heads boundaries).map Slice.start = slice.statementStarts boundaries := by
  rw [statementStarts_eq]
  exact Delimiter.map_start_headsFrom slice.cells

theorem Slice.filterMap_statementStarts {α : Type} (boundaries : Boundaries) (slice : Slice)
    (read : Slice → Option α) :
    ((slice.statementStarts boundaries).filterMap fun start => read (slice.fromOffset start)) =
      (slice.heads boundaries).filterMap read := by
  rw [Slice.heads, ← Delimiter.map_fromOffset_startsFrom, List.filterMap_map,
    statementStarts_eq]
  rfl

namespace Delimiter

variable {boundaries : Boundaries} {braces parens position : Nat} {pending : Bool} {cell : Cell}
  {left rest : List Cell} {stack stack' : List UInt8}

theorem headsFrom_skip (h : (pending && !cell.isBlank) = false) :
    headsFrom boundaries braces parens pending position (cell :: rest) =
      headsFrom boundaries (bracesAfter braces cell.byte) (parensAfter parens cell.byte)
        (endsStatement boundaries braces parens cell.byte || pending) (position + 1) rest := by
  cases pending with
  | false => simp [headsFrom]
  | true =>
    have hb : cell.isBlank = true := by simpa using h
    simp [headsFrom, hb]

theorem headsFrom_head (h : cell.isBlank = false) :
    headsFrom boundaries braces parens true position (cell :: rest) =
      ⟨position, cell :: rest⟩ ::
        headsFrom boundaries (bracesAfter braces cell.byte) (parensAfter parens cell.byte)
          (endsStatement boundaries braces parens cell.byte) (position + 1) rest := by
  simp [headsFrom, h]

theorem counts_of_isInert (braces parens : Nat) {byte : UInt8} (h : isInert byte) :
    bracesAfter braces byte = braces ∧ parensAfter parens byte = parens := by
  simp only [isInert, isOpener, isCloser, Bool.and_eq_true, Bool.not_eq_true',
    Bool.or_eq_false_iff, decide_eq_false_iff_not] at h
  simp [bracesAfter, parensAfter, h]

theorem endsStatement_of_isInert {byte : UInt8} (hm : boundaries ≠ .topLevelLines)
    (h : isInert byte) (hs : byte ≠ 0x3B) :
    endsStatement boundaries braces parens byte = false := by
  simp only [isInert, isOpener, isCloser, Bool.and_eq_true, Bool.not_eq_true',
    Bool.or_eq_false_iff, decide_eq_false_iff_not] at h
  simp [endsStatement, h, hs, hm]

theorem headsFrom_inert (hm : boundaries ≠ .topLevelLines)
    (h : ∀ cell ∈ left, isInert cell.byte ∧ cell.byte ≠ 0x3B)
    (hp : ∀ cell ∈ left, (pending && !cell.isBlank) = false) :
    headsFrom boundaries braces parens pending position (left ++ rest) =
      headsFrom boundaries braces parens pending (position + left.length) rest := by
  induction left generalizing position with
  | nil => rfl
  | cons cell left ih =>
    have hc := h cell List.mem_cons_self
    have hl : position + (cell :: left).length = position + 1 + left.length := by
      rw [List.length_cons]; omega
    obtain ⟨hb, hr⟩ := counts_of_isInert braces parens hc.1
    rw [List.cons_append, headsFrom_skip (hp cell List.mem_cons_self), hb, hr,
      endsStatement_of_isInert hm hc.1 hc.2, Bool.false_or, hl]
    exact ih (fun cell hx => h cell (List.mem_cons_of_mem _ hx))
      (fun cell hx => hp cell (List.mem_cons_of_mem _ hx))

theorem headsFrom_semicolon (h : cell.byte = 0x3B) :
    headsFrom .topLevel 0 0 false position (cell :: rest) =
      headsFrom .topLevel 0 0 true (position + 1) rest := by
  rw [headsFrom_skip rfl, h]
  rfl

theorem headsFrom_nested_semicolon (h : cell.byte = 0x3B) :
    headsFrom .nested braces 0 false position (cell :: rest) =
      headsFrom .nested braces 0 true (position + 1) rest := by
  rw [headsFrom_skip rfl, h]
  rfl

/-- Whether no start is found before a bracket that is now open is closed. -/
def Shut (boundaries : Boundaries) (braces parens : Nat) : Prop :=
  0 < parens ∨ (boundaries = .topLevel ∧ 0 < braces)

theorem counts_of_closerOf (braces parens : Nat) {closer : UInt8} (stack : List UInt8)
    (h : closerOf cell.byte = some closer) :
    bracesAfter (braces + stack.count 0x7D) cell.byte = braces + (closer :: stack).count 0x7D ∧
      parensAfter (parens + stack.count 0x29 + stack.count 0x5D) cell.byte =
        parens + (closer :: stack).count 0x29 + (closer :: stack).count 0x5D := by
  simp only [closerOf] at h
  split at h
  · next he => cases h; simp [he, bracesAfter, parensAfter, Nat.add_assoc]
  · split at h
    · next he => cases h; simp [he, bracesAfter, parensAfter]; omega
    · split at h
      · next he => cases h; simp [he, bracesAfter, parensAfter, Nat.add_assoc]
      · cases h

theorem counts_of_isCloser (braces parens : Nat) (stack : List UInt8) (h : isCloser cell.byte) :
    bracesAfter (braces + (cell.byte :: stack).count 0x7D) cell.byte = braces + stack.count 0x7D ∧
      parensAfter (parens + (cell.byte :: stack).count 0x29 + (cell.byte :: stack).count 0x5D)
        cell.byte = parens + stack.count 0x29 + stack.count 0x5D := by
  simp only [isCloser, Bool.or_eq_true, decide_eq_true_eq] at h
  rcases h with (h | h) | h
  · simp [h, bracesAfter, parensAfter]
    omega
  · simp [h, bracesAfter, parensAfter]
  · simp [h, bracesAfter, parensAfter]

theorem not_endsStatement_of_shut (hs : Shut boundaries braces parens)
    (h : due stack (cell :: left) = some stack') :
    endsStatement boundaries (braces + stack.count 0x7D)
      (parens + stack.count 0x29 + stack.count 0x5D) cell.byte = false := by
  rcases hs with hs | ⟨rfl, hs⟩
  · have hz : parens + stack.count 0x29 + stack.count 0x5D ≠ 0 := by omega
    simp only [endsStatement, decide_eq_false hz, Bool.false_and]
  · by_cases hx : cell.byte = 0x7D
    · rcases due_cons h with ⟨_, hc, _⟩ | ⟨outer, _, rfl, _⟩ | ⟨hi, _⟩
      · rw [hx] at hc
        cases hc
      · have hz : ¬ braces + (cell.byte :: outer).count 0x7D ≤ 1 := by
          rw [hx, List.count_cons_self]
          omega
        rw [hx] at hz ⊢
        simp only [endsStatement, decide_eq_false hz]
        simp
      · rw [hx] at hi
        cases hi
    · have hz : ¬ braces + stack.count 0x7D = 0 := by omega
      simp [endsStatement, hx, -Nat.add_eq_zero_iff, hz]

/-- Before a bracket that is open is closed, no start follows. -/
theorem headsFrom_due (hs : Shut boundaries braces parens) (h : due stack left = some stack')
    (position : Nat) (rest : List Cell) :
    headsFrom boundaries (braces + stack.count 0x7D)
        (parens + stack.count 0x29 + stack.count 0x5D) false position (left ++ rest) =
      headsFrom boundaries (braces + stack'.count 0x7D)
        (parens + stack'.count 0x29 + stack'.count 0x5D) false (position + left.length) rest := by
  induction left generalizing stack position with
  | nil => cases h; rfl
  | cons cell left ih =>
    have hl : position + (cell :: left).length = position + 1 + left.length := by
      rw [List.length_cons]; omega
    rw [List.cons_append, hl, headsFrom_skip rfl, not_endsStatement_of_shut hs h]
    rcases due_cons h with ⟨closer, hc, hr⟩ | ⟨outer, hc, rfl, hr⟩ | ⟨hi, hr⟩
    · obtain ⟨hb, hp⟩ := counts_of_closerOf braces parens stack hc
      rw [hb, hp]
      exact ih hr _
    · obtain ⟨hb, hp⟩ := counts_of_isCloser braces parens outer hc
      rw [hb, hp]
      exact ih hr _
    · obtain ⟨hb, hp⟩ := counts_of_isInert (braces + stack.count 0x7D)
        (parens + stack.count 0x29 + stack.count 0x5D) hi
      rw [hb, hp]
      exact ih hr _

theorem headsFrom_parens {opening closing : Cell} (ho : opening.byte = 0x28)
    (hc : closing.byte = 0x29) (h : IsNested left) :
    headsFrom boundaries braces parens false position (opening :: (left ++ closing :: rest)) =
      headsFrom boundaries braces parens false (position + left.length + 2) rest := by
  have hs : Shut boundaries braces (parens + 1) := .inl (Nat.succ_pos _)
  have hd := headsFrom_due hs h (position + 1) (closing :: rest)
  simp only [List.count_nil, Nat.add_zero] at hd
  have hl : position + left.length + 2 = position + 1 + left.length + 1 := by omega
  rw [headsFrom_skip rfl, ho, hl]
  refine Eq.trans ?_ (hd.trans ?_)
  · simp [bracesAfter, parensAfter, endsStatement]
  · rw [headsFrom_skip rfl, hc]
    simp [bracesAfter, parensAfter, endsStatement]

theorem headsFrom_braces {opening closing : Cell} (ho : opening.byte = 0x7B)
    (hc : closing.byte = 0x7D) (h : IsNested left) :
    headsFrom .topLevel 0 0 false position (opening :: (left ++ closing :: rest)) =
      headsFrom .topLevel 0 0 true (position + left.length + 2) rest := by
  have hs : Shut .topLevel 1 0 := .inr ⟨rfl, Nat.one_pos⟩
  have hd := headsFrom_due hs h (position + 1) (closing :: rest)
  simp only [List.count_nil, Nat.add_zero] at hd
  have hl : position + left.length + 2 = position + 1 + left.length + 1 := by omega
  rw [headsFrom_skip rfl, ho, hl]
  refine Eq.trans ?_ (hd.trans ?_)
  · rfl
  · rw [headsFrom_skip rfl, hc]
    rfl

theorem headsFrom_nested_opening {opening : Cell} (ho : opening.byte = 0x7B) :
    headsFrom .nested braces 0 false position (opening :: rest) =
      headsFrom .nested (braces + 1) 0 true (position + 1) rest := by
  rw [headsFrom_skip rfl, ho]
  rfl

end Delimiter

end CodeOutline
