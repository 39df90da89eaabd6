import CodeOutline.Delimiter.Split
import CodeOutline.Proofs.Text.Slice

namespace CodeOutline.Delimiter

/-- The closers due after a text, the next one first, if each closer of the text was the one due. -/
def due (stack : List UInt8) : List Cell → Option (List UInt8)
  | [] => some stack
  | cell :: rest =>
    match closerOf cell.byte with
    | some closer => due (closer :: stack) rest
    | none =>
      if isCloser cell.byte then
        match stack with
        | [] => none
        | next :: outer => if cell.byte = next then due outer rest else none
      else due stack rest

/-- Every bracket is closed by one of its kind, in the order of nesting. -/
def IsNested (cells : List Cell) : Prop :=
  due [] cells = some []

instance (cells : List Cell) : Decidable (IsNested cells) :=
  inferInstanceAs (Decidable (_ = _))

/-- A byte that is no bracket. -/
def isInert (byte : UInt8) : Bool :=
  !isOpener byte && !isCloser byte

variable {opener closer terminator : UInt8} {stack stack' : List UInt8} {left right : List Cell}

theorem isOpener_of_closerOf (h : closerOf opener = some closer) :
    isOpener opener ∧ isCloser closer := by
  unfold closerOf at h
  split at h
  · next he => cases h; subst he; decide
  · split at h
    · next he => cases h; subst he; decide
    · split at h
      · next he => cases h; subst he; decide
      · cases h

theorem closerOf_of_not_isOpener {byte : UInt8} (h : isOpener byte = false) :
    closerOf byte = none := by
  simp only [isOpener, Bool.or_eq_false_iff, decide_eq_false_iff_not] at h
  simp only [closerOf, h, if_false]

theorem isOpener_iff {byte : UInt8} : isOpener byte ↔ ∃ closer, closerOf byte = some closer := by
  constructor
  · intro h
    cases hc : closerOf byte with
    | some closer => exact ⟨closer, rfl⟩
    | none =>
      simp only [isOpener, Bool.or_eq_true, decide_eq_true_eq] at h
      rcases h with (rfl | rfl) | rfl <;> cases hc
  · rintro ⟨closer, h⟩
    exact (isOpener_of_closerOf h).1

theorem not_isCloser_of_isOpener {byte : UInt8} (h : isOpener byte) : isCloser byte = false := by
  simp only [isOpener, Bool.or_eq_true, decide_eq_true_eq] at h
  rcases h with (rfl | rfl) | rfl <;> rfl

theorem ne_of_isOpener_of_isCloser {byte byte' : UInt8} (ho : isOpener byte)
    (hc : isCloser byte') : byte ≠ byte' := by
  rintro rfl
  rw [not_isCloser_of_isOpener ho] at hc
  exact absurd hc Bool.false_ne_true

theorem not_isOpener_of_isCloser {byte : UInt8} (h : isCloser byte) : isOpener byte = false := by
  cases ho : isOpener byte with
  | false => rfl
  | true => exact absurd rfl (ne_of_isOpener_of_isCloser ho h)

theorem closerOf_of_isCloser {byte : UInt8} (h : isCloser byte) : closerOf byte = none :=
  closerOf_of_not_isOpener (not_isOpener_of_isCloser h)

theorem isInert_iff {byte : UInt8} :
    isInert byte ↔ isOpener byte = false ∧ isCloser byte = false := by
  simp only [isInert, Bool.and_eq_true, Bool.not_eq_true']

theorem closerOf_of_isInert {byte : UInt8} (h : isInert byte) : closerOf byte = none :=
  closerOf_of_not_isOpener (isInert_iff.1 h).1

theorem isCloser_of_isInert {byte : UInt8} (h : isInert byte) : isCloser byte = false :=
  (isInert_iff.1 h).2

theorem closerOf_inj {opener' : UInt8} (h : closerOf opener = some closer)
    (h' : closerOf opener' = some closer) : opener = opener' := by
  have ho := (isOpener_of_closerOf h).1
  have ho' := (isOpener_of_closerOf h').1
  simp only [isOpener, Bool.or_eq_true, decide_eq_true_eq] at ho ho'
  rcases ho with (rfl | rfl) | rfl <;> rcases ho' with (rfl | rfl) | rfl <;>
    first | rfl | (cases h; cases h')

/-- What the first cell of a text does to the stack: it opens a bracket, closes the one due or is no
bracket. -/
theorem due_cons {cell : Cell} {rest : List Cell} (h : due stack (cell :: rest) = some stack') :
    (∃ closer, closerOf cell.byte = some closer ∧ due (closer :: stack) rest = some stack') ∨
    (∃ outer, isCloser cell.byte ∧ stack = cell.byte :: outer ∧ due outer rest = some stack') ∨
    (isInert cell.byte ∧ due stack rest = some stack') := by
  simp only [due] at h
  split at h
  · next closer hc => exact .inl ⟨closer, hc, h⟩
  · next hc =>
    split at h
    · next hcl =>
      cases stack with
      | nil => cases h
      | cons next outer =>
        simp only at h
        split at h
        · next he => exact .inr (.inl ⟨outer, hcl, by rw [he], h⟩)
        · cases h
    · next hcl =>
      refine .inr (.inr ⟨?_, h⟩)
      cases ho : isOpener cell.byte with
      | false => simp only [isInert, ho, hcl, Bool.not_false, Bool.and_self]
      | true =>
        obtain ⟨closer, hcl⟩ := isOpener_iff.1 ho
        rw [hcl] at hc
        cases hc

theorem due_append (stack : List UInt8) (left right : List Cell) :
    due stack (left ++ right) = (due stack left).bind (due · right) := by
  induction left generalizing stack with
  | nil => rfl
  | cons cell rest ih =>
    simp only [List.cons_append, due]
    split
    · exact ih _
    · split
      · split
        · rfl
        · split
          · exact ih _
          · rfl
      · exact ih _

theorem exists_due_of_append (h : due stack (left ++ right) = some stack') :
    ∃ middle, due stack left = some middle ∧ due middle right = some stack' := by
  rwa [due_append, Option.bind_eq_some_iff] at h

theorem exists_due_of_cons {cell : Cell} {rest : List Cell}
    (h : due stack (cell :: rest) = some stack') :
    ∃ middle, due stack [cell] = some middle ∧ due middle rest = some stack' :=
  exists_due_of_append h

/-- What is due further out does not matter to a text that never reaches it. -/
theorem due_weaken (outer : List UInt8) (h : due stack left = some stack') :
    due (stack ++ outer) left = some (stack' ++ outer) := by
  induction left generalizing stack with
  | nil => cases h; rfl
  | cons cell rest ih =>
    rcases due_cons h with ⟨closer, hc, hr⟩ | ⟨inner, hc, rfl, hr⟩ | ⟨hi, hr⟩
    · simp only [due, hc]
      exact ih hr
    · simp only [due, closerOf_of_isCloser hc, hc, if_true, List.cons_append]
      exact ih hr
    · simp only [due, closerOf_of_isInert hi, isCloser_of_isInert hi, Bool.false_eq_true, if_false]
      exact ih hr

theorem IsNested.due (h : IsNested left) (stack : List UInt8) : due stack left = some stack :=
  due_weaken stack h

theorem IsNested.append (hl : IsNested left) (hr : IsNested right) : IsNested (left ++ right) := by
  rw [IsNested, due_append, hl]
  exact hr

theorem IsNested.of_append (h : IsNested (left ++ right)) (hl : IsNested left) :
    IsNested right := by
  rw [IsNested, due_append, hl] at h
  exact h

theorem due_inert (h : ∀ cell ∈ left, isInert cell.byte) (stack : List UInt8) :
    due stack left = some stack := by
  induction left with
  | nil => rfl
  | cons cell rest ih =>
    have hc := h cell List.mem_cons_self
    simp only [due, closerOf_of_isInert hc, isCloser_of_isInert hc, Bool.false_eq_true, if_false]
    exact ih fun cell hm => h cell (List.mem_cons_of_mem _ hm)

theorem isNested_of_inert (h : ∀ cell ∈ left, isInert cell.byte) : IsNested left :=
  due_inert h []

theorem IsNested.block {opening closing : Cell} (h : IsNested left)
    (ho : closerOf opening.byte = some closing.byte) : IsNested (opening :: (left ++ [closing])) := by
  have hc := (isOpener_of_closerOf ho).2
  simp only [IsNested, Delimiter.due, ho, due_append, h.due, Option.bind_some,
    closerOf_of_isCloser hc, hc, if_true]

section

variable {cell : Cell} {rest : List Cell} {depth position : Nat}

theorem closeFrom_opener (h : cell.byte = opener) :
    closeFrom opener closer depth position (cell :: rest) =
      closeFrom opener closer (depth + 1) (position + 1) rest := by
  rw [closeFrom.eq_def]
  simp only [if_pos h]

theorem closeFrom_closer (hn : cell.byte ≠ opener) (h : cell.byte = closer) :
    closeFrom opener closer 0 position (cell :: rest) = some position := by
  rw [closeFrom.eq_def]
  simp only [if_neg hn, if_pos h]

theorem closeFrom_closer_succ (hn : cell.byte ≠ opener) (h : cell.byte = closer) :
    closeFrom opener closer (depth + 1) position (cell :: rest) =
      closeFrom opener closer depth (position + 1) rest := by
  rw [closeFrom.eq_def]
  simp only [if_neg hn, if_pos h]

theorem closeFrom_other (hn : cell.byte ≠ opener) (h : cell.byte ≠ closer) :
    closeFrom opener closer depth position (cell :: rest) =
      closeFrom opener closer depth (position + 1) rest := by
  rw [closeFrom.eq_def]
  simp only [if_neg hn, if_neg h]

theorem findFrom_opener (h : isOpener cell.byte) :
    findFrom terminator depth position (cell :: rest) =
      findFrom terminator (depth + 1) (position + 1) rest := by
  rw [findFrom.eq_def]
  simp only [if_pos h]

theorem findFrom_closer (h : isCloser cell.byte) :
    findFrom terminator (depth + 1) position (cell :: rest) =
      findFrom terminator depth (position + 1) rest := by
  rw [findFrom.eq_def]
  simp only [not_isOpener_of_isCloser h, h, if_true, Bool.false_eq_true, if_false]

theorem findFrom_terminator (h : isInert cell.byte) (ht : cell.byte = terminator) :
    findFrom terminator 0 position (cell :: rest) = some position := by
  subst ht
  rw [isInert_iff] at h
  rw [findFrom.eq_def]
  simp only [h.1, h.2, and_self, if_true, Bool.false_eq_true, if_false]

theorem findFrom_other (h : isInert cell.byte) (ht : ¬ (cell.byte = terminator ∧ depth = 0)) :
    findFrom terminator depth position (cell :: rest) =
      findFrom terminator depth (position + 1) rest := by
  rw [isInert_iff] at h
  rw [findFrom.eq_def]
  simp only [h.1, h.2, if_neg ht, Bool.false_eq_true, if_false]

theorem findFrom_unmatched (h : isCloser cell.byte) :
    findFrom terminator 0 position (cell :: rest) = none := by
  rw [findFrom.eq_def]
  simp only [not_isOpener_of_isCloser h, h, if_true, Bool.false_eq_true, if_false]

/-- The open brackets after a byte; a closer without an opener is ignored. -/
def depthAfter (depth : Nat) (byte : UInt8) : Nat :=
  if isOpener byte then depth + 1 else if isCloser byte then depth - 1 else depth

theorem byte_cases (byte : UInt8) : isOpener byte ∨ isCloser byte ∨ isInert byte := by
  cases ho : isOpener byte with
  | true => exact .inl rfl
  | false =>
    cases hc : isCloser byte with
    | true => exact .inr (.inl rfl)
    | false => exact .inr (.inr (isInert_iff.2 ⟨ho, hc⟩))

theorem depthAfter_opener {byte : UInt8} (h : isOpener byte) :
    depthAfter depth byte = depth + 1 := by
  simp only [depthAfter, h, if_true]

theorem depthAfter_closer {byte : UInt8} (h : isCloser byte) :
    depthAfter depth byte = depth - 1 := by
  simp only [depthAfter, not_isOpener_of_isCloser h, h, Bool.false_eq_true, if_false, if_true]

theorem depthAfter_inert {byte : UInt8} (h : isInert byte) : depthAfter depth byte = depth := by
  rw [isInert_iff] at h
  simp only [depthAfter, h.1, h.2, Bool.false_eq_true, if_false]

/-- Outside brackets a byte may be what is looked for, or a closer without an opener. -/
theorem outer_cases (terminator : UInt8) (depth : Nat) (byte : UInt8) :
    (depth = 0 ∧ byte = terminator) ∨ (depth = 0 ∧ isCloser byte) ∨
      ((byte = terminator → 0 < depth) ∧ (isCloser byte → 0 < depth)) := by
  rcases Nat.eq_zero_or_pos depth with hz | hpos
  · by_cases hb : byte = terminator
    · exact .inl ⟨hz, hb⟩
    · by_cases hc : isCloser byte
      · exact .inr (.inl ⟨hz, hc⟩)
      · exact .inr (.inr ⟨fun h => absurd h hb, fun h => absurd h hc⟩)
  · exact .inr (.inr ⟨fun _ => hpos, fun _ => hpos⟩)

theorem findFrom_depthAfter (ht : cell.byte = terminator → 0 < depth)
    (hc : isCloser cell.byte → 0 < depth) :
    findFrom terminator depth position (cell :: rest) =
      findFrom terminator (depthAfter depth cell.byte) (position + 1) rest := by
  rcases byte_cases cell.byte with ho | hcloser | hi
  · rw [findFrom_opener ho, depthAfter_opener ho]
  · obtain ⟨depth, rfl⟩ := Nat.exists_eq_add_one_of_ne_zero (Nat.ne_of_gt (hc hcloser))
    rw [findFrom_closer hcloser, depthAfter_closer hcloser, Nat.add_sub_cancel]
  · rw [findFrom_other hi fun hx => Nat.ne_of_gt (ht hx.1) hx.2, depthAfter_inert hi]

theorem splitCells_cut (hi : isInert cell.byte) (hb : cell.byte = terminator) :
    splitCells terminator 0 (cell :: rest) = [] :: splitCells terminator 0 rest := by
  subst hb
  obtain ⟨ho, hc⟩ := isInert_iff.1 hi
  simp only [splitCells, ho, hc, Bool.false_eq_true, if_false, and_self, if_true]

theorem splitCells_depthAfter (h : isInert cell.byte → cell.byte = terminator → 0 < depth) :
    splitCells terminator depth (cell :: rest) =
      extend cell (splitCells terminator (depthAfter depth cell.byte) rest) := by
  rw [splitCells, depthAfter]
  split
  · rfl
  · next ho =>
    split
    · rfl
    · next hc =>
      have hi := isInert_iff.2 ⟨Bool.eq_false_iff.2 ho, Bool.eq_false_iff.2 hc⟩
      rw [if_neg fun hx => Nat.ne_of_gt (h hi hx.1) hx.2]

end

/-- A search for the closer of one kind sees the brackets of that kind on the stack. -/
theorem closeFrom_due (ho : closerOf opener = some closer) (h : due stack left = some stack')
    (right : List Cell) (depth position : Nat) :
    closeFrom opener closer (depth + stack.count closer) position (left ++ right) =
      closeFrom opener closer (depth + stack'.count closer) (position + left.length) right := by
  have hoc := isOpener_of_closerOf ho
  induction left generalizing stack position with
  | nil => cases h; rfl
  | cons cell rest ih =>
    have hp : position + (cell :: rest).length = position + 1 + rest.length := by
      rw [List.length_cons]; omega
    rw [List.cons_append, hp]
    rcases due_cons h with ⟨inner, hc, hr⟩ | ⟨outer, hc, rfl, hr⟩ | ⟨hi, hr⟩
    · rw [← ih hr]
      by_cases he : cell.byte = opener
      · rw [he, ho] at hc
        cases hc
        rw [closeFrom_opener he, List.count_cons_self, Nat.add_assoc]
      · have hn : cell.byte ≠ closer :=
          ne_of_isOpener_of_isCloser (isOpener_of_closerOf hc).1 hoc.2
        have hi : inner ≠ closer := by
          rintro rfl
          exact he (closerOf_inj hc ho)
        rw [closeFrom_other he hn, List.count_cons_of_ne hi]
    · have he : cell.byte ≠ opener := (ne_of_isOpener_of_isCloser hoc.1 hc).symm
      rw [← ih hr]
      by_cases hx : cell.byte = closer
      · rw [hx, List.count_cons_self, ← Nat.add_assoc, closeFrom_closer_succ he hx]
      · rw [closeFrom_other he hx, List.count_cons_of_ne hx]
    · rw [← ih hr, closeFrom_other]
      · rintro rfl
        rw [closerOf_of_isInert hi] at ho
        cases ho
      · rintro rfl
        rw [isCloser_of_isInert hi] at hoc
        exact absurd hoc.2 Bool.false_ne_true

/-- A search for a terminator passes over what stands inside open brackets. -/
theorem findFrom_due (terminator : UInt8) (h : due stack left = some stack') (right : List Cell)
    (depth position : Nat) :
    findFrom terminator (depth + 1 + stack.length) position (left ++ right) =
      findFrom terminator (depth + 1 + stack'.length) (position + left.length) right := by
  induction left generalizing stack position with
  | nil => cases h; rfl
  | cons cell rest ih =>
    have hp : position + (cell :: rest).length = position + 1 + rest.length := by
      rw [List.length_cons]; omega
    rw [List.cons_append, hp]
    rcases due_cons h with ⟨inner, hc, hr⟩ | ⟨outer, hc, rfl, hr⟩ | ⟨hi, hr⟩
    · rw [findFrom_opener (isOpener_of_closerOf hc).1, ← ih hr, List.length_cons, Nat.add_assoc]
    · rw [← ih hr, List.length_cons, ← Nat.add_assoc, findFrom_closer hc]
    · rw [findFrom_other hi (by omega), ih hr]

theorem findFrom_nested {opening closing : Cell} (ho : closerOf opening.byte = some closing.byte)
    (h : IsNested left) (depth position : Nat) :
    findFrom terminator depth position (opening :: (left ++ closing :: right)) =
      findFrom terminator depth (position + left.length + 2) right := by
  have hb := isOpener_of_closerOf ho
  have hs := findFrom_due terminator h (closing :: right) depth (position + 1)
  simp only [List.length_nil, Nat.add_zero] at hs
  rw [findFrom_opener hb.1, hs, findFrom_closer hb.2]
  congr 1
  omega

end CodeOutline.Delimiter

namespace CodeOutline.Slice

variable {opening closing : Cell} {inner rest : List Cell} {position : Nat}

theorem close?_nested (ho : Delimiter.closerOf opening.byte = some closing.byte)
    (h : Delimiter.IsNested inner) :
    (Slice.mk position (opening :: (inner ++ closing :: rest))).close? =
      some (position + 1 + inner.length) := by
  have hs := Delimiter.closeFrom_due ho h (closing :: rest) 0 (position + 1)
  have hb := Delimiter.isOpener_of_closerOf ho
  have hne := (Delimiter.ne_of_isOpener_of_isCloser hb.1 hb.2).symm
  simp only [close?, ho, Option.bind_some]
  simp only [List.count_nil, Nat.add_zero] at hs
  rw [hs, Delimiter.closeFrom_closer hne rfl]

theorem block?_eq (h : (Slice.mk position (opening :: (inner ++ closing :: rest))).close? =
      some (position + 1 + inner.length)) :
    (Slice.mk position (opening :: (inner ++ closing :: rest))).block? =
      some (⟨position + 1, inner⟩, ⟨position + 1 + inner.length + 1, rest⟩) := by
  have ht := toOffset_append position (opening :: inner) (closing :: rest)
  have hf := fromOffset_append position (opening :: (inner ++ [closing])) rest
  have hl : position + (opening :: inner).length = position + 1 + inner.length := by
    rw [List.length_cons]; omega
  have hl' : position + (opening :: (inner ++ [closing])).length =
      position + 1 + inner.length + 1 := by
    rw [List.length_cons, List.length_append, List.length_singleton]; omega
  rw [hl] at ht
  rw [hl'] at hf
  simp only [List.cons_append, List.append_assoc, List.nil_append] at ht hf
  simp only [block?, h, Option.map_some, ht, hf]
  rfl

theorem block?_nested (ho : Delimiter.closerOf opening.byte = some closing.byte)
    (h : Delimiter.IsNested inner) :
    (Slice.mk position (opening :: (inner ++ closing :: rest))).block? =
      some (⟨position + 1, inner⟩, ⟨position + 1 + inner.length + 1, rest⟩) :=
  block?_eq (close?_nested ho h)

end CodeOutline.Slice
