import CodeOutline.Proofs.Delimiter.Scan
import Mathlib.Data.List.Induction

namespace CodeOutline.Delimiter

variable {boundaries : Boundaries} {braces parens position depth start : Nat} {pending : Bool}
  {cell : Cell} {cells left rest : List Cell}

def bracesOver (braces : Nat) (cells : List Cell) : Nat :=
  cells.foldl (fun braces cell => bracesAfter braces cell.byte) braces

def parensOver (parens : Nat) (cells : List Cell) : Nat :=
  cells.foldl (fun parens cell => parensAfter parens cell.byte) parens

theorem parensOver_append (parens : Nat) (left right : List Cell) :
    parensOver parens (left ++ right) = parensOver (parensOver parens left) right :=
  List.foldl_append

/-- Whether a start is due behind some cells. -/
def pendingOver (boundaries : Boundaries) (braces parens : Nat) (pending : Bool) : List Cell → Bool
  | [] => pending
  | cell :: rest =>
    pendingOver boundaries (bracesAfter braces cell.byte) (parensAfter parens cell.byte)
      (endsStatement boundaries braces parens cell.byte || (pending && cell.isBlank)) rest

theorem pendingOver_append_singleton (boundaries : Boundaries) (braces parens : Nat)
    (pending : Bool) (left : List Cell) (cell : Cell) :
    pendingOver boundaries braces parens pending (left ++ [cell]) =
      (endsStatement boundaries (bracesOver braces left) (parensOver parens left) cell.byte ||
        (pendingOver boundaries braces parens pending left && cell.isBlank)) := by
  induction left generalizing braces parens pending with
  | nil => rfl
  | cons first left ih => exact ih ..

/-- A scan goes on behind some cells with the counts and the start that are due there. -/
theorem startsFrom_append_pendingOver (boundaries : Boundaries) (braces parens : Nat)
    (pending : Bool) (position : Nat) (left rest : List Cell) :
    startsFrom boundaries braces parens pending position (left ++ rest) =
      startsFrom boundaries braces parens pending position left ++
        startsFrom boundaries (bracesOver braces left) (parensOver parens left)
          (pendingOver boundaries braces parens pending left) (position + left.length) rest := by
  induction left generalizing braces parens pending position with
  | nil => rfl
  | cons cell left ih =>
    have hl : position + (cell :: left).length = position + 1 + left.length := by
      rw [List.length_cons]
      omega
    rw [List.cons_append, startsFrom_cons, startsFrom_cons, ih, hl, List.append_assoc]
    rfl

theorem startsFrom_append (boundaries : Boundaries) (braces parens : Nat) (pending : Bool)
    (position : Nat) (left : List Cell) :
    ∃ pending', ∀ rest, startsFrom boundaries braces parens pending position (left ++ rest) =
      startsFrom boundaries braces parens pending position left ++
        startsFrom boundaries (bracesOver braces left) (parensOver parens left) pending'
          (position + left.length) rest :=
  ⟨_, fun rest => startsFrom_append_pendingOver boundaries braces parens pending position left rest⟩

theorem mem_startsFrom_append
    (h : start ∈ startsFrom boundaries braces parens pending position left) (rest : List Cell) :
    start ∈ startsFrom boundaries braces parens pending position (left ++ rest) := by
  obtain ⟨_, hscan⟩ := startsFrom_append boundaries braces parens pending position left
  rw [hscan]
  exact List.mem_append_left _ h

theorem pending_of_start_mem
    (h : position ∈ startsFrom boundaries braces parens pending position (cell :: rest)) :
    pending ∧ cell.isBlank = false := by
  rw [startsFrom_cons, List.mem_append] at h
  rcases h with h | h
  · split at h
    · next hp => simpa using hp
    · cases h
  · have hle := le_of_mem_startsFrom h
    omega

theorem endsStatement_topLevel {byte : UInt8} (hb : 0 < braces) (hc : byte = 0x7D → 1 < braces) :
    endsStatement .topLevel braces parens byte = false := by
  rw [Bool.eq_false_iff, Ne, endsStatement_topLevel_iff]
  rintro ⟨_, ⟨hx, hle⟩ | ⟨_, hz⟩⟩
  · have := hc hx
    omega
  · omega

theorem exists_closeFrom_of_mem_startsFrom (hd : depth < braces)
    (h : start ∈ startsFrom .topLevel braces parens false position cells) :
    ∃ close, closeFrom 0x7B 0x7D depth position cells = some close ∧ close < start := by
  induction cells generalizing depth braces parens position with
  | nil => cases h
  | cons cell rest ih =>
    rw [startsFrom_cons, Bool.false_and, Bool.false_and, Bool.or_false, if_neg Bool.false_ne_true,
      List.nil_append] at h
    by_cases ho : cell.byte = 0x7B
    · have he : endsStatement .topLevel braces parens cell.byte = false :=
        endsStatement_topLevel (by omega) (fun hc => by rw [ho] at hc; cases hc)
      rw [he] at h
      rw [closeFrom_opener ho]
      refine ih ?_ h
      rw [bracesAfter, if_pos ho]
      omega
    by_cases hc : cell.byte = 0x7D
    · cases depth with
      | zero =>
        rw [closeFrom_closer ho hc]
        exact ⟨position, rfl, le_of_mem_startsFrom h⟩
      | succ depth =>
        have he : endsStatement .topLevel braces parens cell.byte = false :=
          endsStatement_topLevel (by omega) (fun _ => by omega)
        rw [he] at h
        rw [closeFrom_closer_succ ho hc]
        refine ih ?_ h
        rw [bracesAfter, if_neg ho, if_pos hc]
        omega
    · have he : endsStatement .topLevel braces parens cell.byte = false :=
        endsStatement_topLevel (by omega) (fun hx => absurd hx hc)
      rw [he] at h
      rw [closeFrom_other ho hc]
      refine ih ?_ h
      rw [bracesAfter, if_neg ho, if_neg hc]
      exact hd

/-- No start follows another one before a bracket or a semicolon. -/
theorem le_of_mem_startsFrom_inert (hm : boundaries ≠ .topLevelLines)
    (hi : ∀ cell ∈ left, isInert cell.byte ∧ cell.byte ≠ 0x3B)
    (hp : position ∈ startsFrom boundaries braces parens pending position (left ++ rest))
    (h : start ∈ startsFrom boundaries braces parens pending position (left ++ rest))
    (hlt : position < start) : position + left.length ≤ start := by
  cases left with
  | nil => exact Nat.le_of_lt hlt
  | cons cell left =>
    obtain ⟨hc, hleft⟩ := List.forall_mem_cons.1 hi
    obtain ⟨_, hb⟩ := pending_of_start_mem hp
    rw [List.cons_append, startsFrom_cons, endsStatement_of_isInert hm hc.1 hc.2, hb, Bool.and_false,
      Bool.or_false, List.mem_append] at h
    rcases h with h | h
    · split at h
      · have := List.mem_singleton.1 h
        omega
      · cases h
    · rw [← map_start_headsFrom, headsFrom_inert hm hleft (fun _ _ => rfl),
        map_start_headsFrom] at h
      have hle := le_of_mem_startsFrom h
      rw [List.length_cons]
      omega

theorem countsOver_due {stack stack' : List UInt8} (h : due stack left = some stack') :
    bracesOver (stack.count 0x7D) left = stack'.count 0x7D ∧
      parensOver (stack.count 0x29 + stack.count 0x5D) left =
        stack'.count 0x29 + stack'.count 0x5D := by
  induction left generalizing stack with
  | nil =>
    cases h
    exact ⟨rfl, rfl⟩
  | cons cell rest ih =>
    obtain ⟨middle, hm, hr⟩ := exists_due_of_cons h
    obtain ⟨hbraces, hparens⟩ := counts_due hm
    rw [bracesOver, parensOver, List.foldl_cons, List.foldl_cons, hbraces, hparens]
    exact ih hr

theorem parensOver_due {stack stack' : List UInt8} (h : due stack left = some stack') :
    parensOver (stack.count 0x29 + stack.count 0x5D) left =
      stack'.count 0x29 + stack'.count 0x5D :=
  (countsOver_due h).2

theorem endsStatement_nested {byte : UInt8} (h : endsStatement .topLevel braces parens byte)
    (braces' : Nat) : endsStatement .nested braces' parens byte := by
  obtain ⟨hp, ⟨hb, _⟩ | ⟨hb, _⟩⟩ := endsStatement_topLevel_iff.1 h
  · exact endsStatement_nested_iff.2 ⟨hp, .inr (.inr hb)⟩
  · exact endsStatement_nested_iff.2 ⟨hp, .inl hb⟩

/-- A scan that ends statements wherever another one does finds every start the other one finds. The
two may count braces differently. -/
theorem mem_startsFrom_of_ends {boundaries' : Boundaries} {pending' : Bool} {braces' : Nat}
    (follows : Nat → Nat → Prop)
    (hcount : ∀ byte braces braces', follows braces braces' →
      follows (bracesAfter braces byte) (bracesAfter braces' byte))
    (hends : ∀ byte parens braces braces', follows braces braces' →
      endsStatement boundaries braces parens byte → endsStatement boundaries' braces' parens byte)
    (hb : follows braces braces') (hp : pending → pending')
    (h : start ∈ startsFrom boundaries braces parens pending position cells) :
    start ∈ startsFrom boundaries' braces' parens pending' position cells := by
  induction cells generalizing braces braces' parens pending pending' position with
  | nil => cases h
  | cons cell rest ih =>
    rw [startsFrom_cons, List.mem_append] at h ⊢
    rcases h with h | h
    · split at h
      · next hc =>
        rw [Bool.and_eq_true] at hc
        exact .inl (by rwa [hp hc.1, hc.2])
      · cases h
    · refine .inr (ih (hcount _ _ _ hb) ?_ h)
      rw [Bool.or_eq_true, Bool.or_eq_true, Bool.and_eq_true, Bool.and_eq_true]
      exact Or.imp (hends _ _ _ _ hb) (And.imp_left hp)

theorem mem_startsFrom_nested {pending' : Bool} (hp : pending → pending')
    (h : start ∈ startsFrom .topLevel braces parens pending position cells) (braces' : Nat) :
    start ∈ startsFrom .nested braces' parens pending' position cells :=
  mem_startsFrom_of_ends (fun _ _ => True) (fun _ _ _ _ => trivial)
    (fun _ _ _ braces' _ he => endsStatement_nested he braces') trivial hp h

theorem endsStatement_topLevelLines {byte : UInt8}
    (h : endsStatement .topLevel braces parens byte) :
    endsStatement .topLevelLines braces parens byte := by
  simp only [endsStatement, reduceCtorEq, decide_false, Bool.false_or, Bool.and_false,
    Bool.false_and, Bool.or_false, Bool.and_eq_true, Bool.or_eq_true, decide_true,
    Bool.and_true] at h ⊢
  exact ⟨h.1, .inl h.2⟩

theorem mem_startsFrom_topLevelLines
    (h : start ∈ startsFrom .topLevel braces parens pending position cells) :
    start ∈ startsFrom .topLevelLines braces parens pending position cells := by
  refine mem_startsFrom_of_ends Eq ?_ ?_ rfl id h
  · rintro byte braces _ rfl
    rfl
  · rintro byte parens braces _ rfl he
    exact endsStatement_topLevelLines he

theorem mem_startsFrom_iff (hb : cell.isBlank = false) :
    position + left.length ∈
        startsFrom boundaries braces parens pending position (left ++ cell :: rest) ↔
      pendingOver boundaries braces parens pending left := by
  rw [startsFrom_append_pendingOver, List.mem_append]
  constructor
  · rintro (h | h)
    · have := lt_of_mem_startsFrom h
      omega
    · exact (pending_of_start_mem h).1
  · intro h
    rw [h, startsFrom_cons, hb]
    exact .inr List.mem_cons_self

theorem exists_of_mem_startsFrom
    (h : start ∈ startsFrom boundaries braces parens pending position cells) :
    ∃ left cell rest, cells = left ++ cell :: rest ∧ cell.isBlank = false ∧
      start = position + left.length := by
  induction cells generalizing braces parens pending position with
  | nil => cases h
  | cons cell rest ih =>
    rw [startsFrom_cons, List.mem_append] at h
    rcases h with h | h
    · split at h
      · next hc =>
        rw [Bool.and_eq_true, Bool.not_eq_true'] at hc
        exact ⟨[], cell, rest, rfl, hc.2, List.mem_singleton.1 h⟩
      · cases h
    · obtain ⟨left, last, right, rfl, hb, rfl⟩ := ih h
      refine ⟨cell :: left, last, right, rfl, hb, ?_⟩
      rw [List.length_cons]
      omega

/-- The last byte that is not blank. -/
def lastSolid? (cells : List Cell) : Option UInt8 :=
  (cells.reverse.find? fun cell => !cell.isBlank).map Cell.byte

theorem lastSolid?_append_blank (h : cell.isBlank) :
    lastSolid? (left ++ [cell]) = lastSolid? left := by
  rw [lastSolid?, List.reverse_append, List.reverse_singleton, List.singleton_append,
    List.find?_cons, h]
  rfl

theorem lastSolid?_append_solid (h : cell.isBlank = false) :
    lastSolid? (left ++ [cell]) = some cell.byte := by
  rw [lastSolid?, List.reverse_append, List.reverse_singleton, List.singleton_append,
    List.find?_cons, h]
  rfl

theorem endsDue_iff {stack stack' : List UInt8} (hs : ∀ byte ∈ stack, isCloser byte)
    (h : due stack [cell] = some stack') :
    endsDue stack cell.byte ↔ stack' = [] ∧ cell.byte ∈ [0x3B, 0x7D] := by
  simp only [List.mem_cons, List.not_mem_nil, or_false]
  constructor
  · intro he
    exact ⟨eq_nil_of_endsDue hs h he, (eq_of_endsDue he).symm⟩
  · rintro ⟨rfl, hx | hx⟩
    · have hi : isInert cell.byte := by
        rw [hx]
        rfl
      cases (due_other hi stack []).symm.trans h
      rw [hx]
      rfl
    · rcases due_cons h with ⟨_, hc, _⟩ | ⟨outer, _, rfl, hr⟩ | ⟨hi, _⟩
      · rw [hx] at hc
        cases hc
      · cases hr
        rw [hx]
        rfl
      · rw [hx] at hi
        cases hi

theorem endsStatement_nested_due {stack stack' : List UInt8} (h : due stack [cell] = some stack') :
    endsStatement .nested braces (stack.count 0x29 + stack.count 0x5D) cell.byte ↔
      (0x29 ∉ stack' ∧ 0x5D ∉ stack') ∧ cell.byte ∈ [0x3B, 0x7B, 0x7D] := by
  simp only [endsStatement_nested_iff, List.mem_cons, List.not_mem_nil, or_false]
  refine and_congr_left fun hm => ?_
  have hparens : parensAfter (stack.count 0x29 + stack.count 0x5D) cell.byte =
      stack.count 0x29 + stack.count 0x5D := by
    rcases hm with hb | hb | hb <;> rw [hb] <;> rfl
  rw [← hparens, (counts_due h).2, Nat.add_eq_zero_iff, List.count_eq_zero, List.count_eq_zero]

/-- Behind a text that is nested so far a start is due if the last byte that is not blank ends a
statement where the closers that are due allow it. -/
theorem pendingOver_iff {enders stack : List UInt8} (clear : List UInt8 → Prop)
    (hm : boundaries ≠ .topLevelLines) (hnil : clear [])
    (hends : ∀ cell stack stack', (∀ byte ∈ stack, isCloser byte) →
      due stack [cell] = some stack' →
      (endsStatement boundaries (stack.count 0x7D) (stack.count 0x29 + stack.count 0x5D) cell.byte ↔
        clear stack' ∧ cell.byte ∈ enders))
    (h : due [] left = some stack) :
    pendingOver boundaries 0 0 true left ↔
      clear stack ∧ ∀ byte ∈ lastSolid? left, byte ∈ enders := by
  -- Cells are added at the end: a blank changes nothing, any other byte decides alone.
  induction left using List.reverseRecOn generalizing stack with
  | nil =>
    cases h
    simp [pendingOver, lastSolid?, hnil]
  | append_singleton left cell ih =>
    obtain ⟨middle, hmiddle, hcell⟩ := exists_due_of_append h
    have hclosers := isCloser_of_due (List.forall_mem_nil _) hmiddle
    obtain ⟨hbraces, hparens⟩ := countsOver_due hmiddle
    rw [List.count_nil] at hbraces
    rw [List.count_nil, List.count_nil, Nat.add_zero] at hparens
    rw [pendingOver_append_singleton, hbraces, hparens]
    cases hb : cell.isBlank with
    | true =>
      have hi := isInert_of_isBlank hb
      have hne : cell.byte ≠ 0x3B := by
        intro he
        rw [Cell.isBlank, he] at hb
        cases hb
      cases (due_other hi middle []).symm.trans hcell
      rw [endsStatement_of_isInert hm hi hne, Bool.false_or, Bool.and_true,
        lastSolid?_append_blank hb]
      exact ih hmiddle
    | false =>
      rw [Bool.and_false, Bool.or_false, lastSolid?_append_solid hb, hends _ _ _ hclosers hcell]
      simp

end CodeOutline.Delimiter

namespace CodeOutline.Slice

open Delimiter

variable {tail slice : Slice}

theorem IsTail.exists_startsFrom (boundaries : Boundaries) (h : IsTail tail slice) :
    ∃ braces parens pending, ∀ start, tail.start ≤ start →
      (start ∈ slice.statementStarts boundaries ↔
        start ∈ startsFrom boundaries braces parens pending tail.start tail.cells) := by
  obtain ⟨before, hc, hs⟩ := h
  obtain ⟨pending, ha⟩ := startsFrom_append boundaries 0 0 true slice.start before
  refine ⟨bracesOver 0 before, parensOver 0 before, pending, fun start hle => ?_⟩
  rw [statementStarts_eq, hc, ha, List.mem_append, ← hs]
  constructor
  · rintro (hm | hm)
    · have := lt_of_mem_startsFrom hm
      omega
    · exact hm
  · exact .inr

variable {before after : List Cell} {cell : Cell}

/-- At the top level a start stands outside all brackets, first in the text or behind a semicolon or
a closing brace. -/
theorem mem_statementStarts_topLevel (hn : IsNested slice.cells)
    (hc : slice.cells = before ++ cell :: after) (hb : cell.isBlank = false) :
    slice.start + before.length ∈ slice.statementStarts .topLevel ↔
      IsNested before ∧ ∀ byte ∈ lastSolid? before, byte ∈ [0x3B, 0x7D] := by
  obtain ⟨stack, hstack, _⟩ := exists_due_of_append (hc ▸ hn)
  rw [statementStarts_eq, hc, mem_startsFrom_iff hb,
    pendingOver_iff (· = []) (by decide) rfl (fun _ _ _ => endsDue_iff) hstack, IsNested, hstack,
    Option.some.injEq]

/-- In a scan of every depth a start stands outside parentheses and square brackets, first in the
text or behind a semicolon or a brace. -/
theorem mem_statementStarts_nested (hn : IsNested slice.cells)
    (hc : slice.cells = before ++ cell :: after) (hb : cell.isBlank = false) :
    slice.start + before.length ∈ slice.statementStarts .nested ↔
      (∃ stack ∈ due [] before, 0x29 ∉ stack ∧ 0x5D ∉ stack) ∧
        ∀ byte ∈ lastSolid? before, byte ∈ [0x3B, 0x7B, 0x7D] := by
  obtain ⟨stack, hstack, _⟩ := exists_due_of_append (hc ▸ hn)
  have hclear : (∃ stack ∈ due [] before, 0x29 ∉ stack ∧ 0x5D ∉ stack) ↔
      0x29 ∉ stack ∧ 0x5D ∉ stack := by
    simp only [hstack, Option.mem_def, Option.some.injEq, exists_eq_left']
  rw [statementStarts_eq, hc, mem_startsFrom_iff hb, hclear]
  exact pendingOver_iff (fun stack => 0x29 ∉ stack ∧ 0x5D ∉ stack) (by decide)
    ⟨List.not_mem_nil, List.not_mem_nil⟩ (fun _ _ _ _ => endsStatement_nested_due) hstack

/-- Statement starts are the places behind the ends of statements. -/
theorem statementStarts_spec (slice : Slice) :
    (∀ boundaries, (slice.statementStarts boundaries).Pairwise (· < ·) ∧
      ∀ start ∈ slice.statementStarts boundaries, ∃ before cell after,
        slice.cells = before ++ cell :: after ∧ cell.isBlank = false ∧
        start = slice.start + before.length) ∧
    slice.statementStarts .topLevel ⊆ slice.statementStarts .nested ∧
    slice.statementStarts .topLevel ⊆ slice.statementStarts .topLevelLines ∧
    (IsNested slice.cells → ∀ before cell after, slice.cells = before ++ cell :: after →
      cell.isBlank = false →
      (slice.start + before.length ∈ slice.statementStarts .topLevel ↔
        IsNested before ∧ ∀ byte ∈ lastSolid? before, byte ∈ [0x3B, 0x7D]) ∧
      (slice.start + before.length ∈ slice.statementStarts .nested ↔
        (∃ stack ∈ due [] before, 0x29 ∉ stack ∧ 0x5D ∉ stack) ∧
          ∀ byte ∈ lastSolid? before, byte ∈ [0x3B, 0x7B, 0x7D])) := by
  refine ⟨fun boundaries => ?_, ?_, ?_, ?_⟩
  · rw [statementStarts_eq]
    exact ⟨pairwise_startsFrom .., fun start hm => exists_of_mem_startsFrom hm⟩
  · rw [statementStarts_eq, statementStarts_eq]
    exact fun start hm => mem_startsFrom_nested id hm 0
  · rw [statementStarts_eq, statementStarts_eq]
    exact fun start hm => mem_startsFrom_topLevelLines hm
  · intro hn before cell after hc hb
    exact ⟨mem_statementStarts_topLevel hn hc hb, mem_statementStarts_nested hn hc hb⟩

/-- In braces a start is one of a scan of every depth only. -/
theorem statementStarts_in_braces :
    IsNested (ofString "a;f(b;)\x7bc\x7d").cells ∧
      8 ∉ (ofString "a;f(b;)\x7bc\x7d").statementStarts .topLevel ∧
      8 ∈ (ofString "a;f(b;)\x7bc\x7d").statementStarts .nested := by
  have hn : IsNested (ofString "a;f(b;)\x7bc\x7d").cells := by decide +kernel
  have hc : (ofString "a;f(b;)\x7bc\x7d").cells =
      (ofString "a;f(b;)\x7b").cells ++ ⟨0x63, some 'c'⟩ :: (ofString "\x7d").cells := by
    decide +kernel
  obtain ⟨htop, hnested⟩ := (statementStarts_spec _).2.2.2 hn _ _ _ hc rfl
  refine ⟨hn, ?_, hnested.2 ⟨⟨[0x7D], ?_⟩, ?_⟩⟩
  · intro hm
    exact absurd (htop.1 hm).1 (by decide +kernel)
  · decide +kernel
  · decide +kernel

end CodeOutline.Slice
