import CodeOutline.Proofs.Outline.Agreement
import CodeOutline.Proofs.Outline.Grammar
import CodeOutline.Proofs.Outline.Nested
import CodeOutline.Proofs.Text.Shown

namespace CodeOutline

namespace Delimiter

/-- Whether some closer is still due behind each semicolon and each closing brace, so that no
statement ends. -/
def Unended (stack : List UInt8) : List Cell → Prop
  | [] => True
  | cell :: rest => ∃ next, due stack [cell] = some next ∧
    (cell.byte = 0x3B ∨ cell.byte = 0x7D → next ≠ []) ∧ Unended next rest

variable {stack stack' : List UInt8} {left right shared : List Cell} {cell last : Cell}
  {position start found : Nat} {pending : Bool}

theorem due_step {next : List UInt8} (h : due stack [cell] = some next) (rest : List Cell) :
    due stack (cell :: rest) = due next rest := by
  rw [← List.singleton_append, due_append, h]
  rfl

theorem Unended.append (h : Unended stack (left ++ right)) :
    ∃ next, due stack left = some next ∧ Unended next right := by
  induction left generalizing stack with
  | nil => exact ⟨stack, rfl, h⟩
  | cons cell left ih =>
    obtain ⟨middle, hm, _, hrest⟩ := h
    obtain ⟨next, hl, hr⟩ := ih hrest
    exact ⟨next, (due_step hm left).trans hl, hr⟩

theorem unended_of_inert (h : ∀ cell ∈ left, isInert cell.byte ∧ cell.byte ≠ 0x3B)
    (hr : Unended stack right) : Unended stack (left ++ right) := by
  induction left with
  | nil => exact hr
  | cons cell left ih =>
    obtain ⟨⟨hi, hs⟩, h⟩ := List.forall_mem_cons.1 h
    refine ⟨stack, due_other hi stack [], fun hb => ?_, ih h⟩
    rcases hb with hb | hb
    · exact absurd hb hs
    · rw [hb] at hi
      cases hi

/-- The end of a nested text is nested if it closes no more than it opens. -/
theorem nested_of_suffix (hn : IsNested (left ++ shared)) (h : due [] shared = some stack) :
    IsNested shared := by
  rw [IsNested, due_append, Option.bind_eq_some_iff] at hn
  obtain ⟨outer, _, ho⟩ := hn
  have hall := due_weaken outer h
  rw [List.nil_append, ho] at hall
  obtain ⟨rfl, _⟩ := List.append_eq_nil_iff.1 (Option.some.inj hall).symm
  exact h

theorem Unended.not_ended (h : Unended [] (shared ++ right)) (hn : IsNested (left ++ shared))
    (hl : shared.getLast? = some last) :
    last.byte ≠ 0x3B ∧ last.byte ≠ 0x7D := by
  obtain ⟨front, rfl⟩ := List.getLast?_eq_some_iff.1 hl
  rw [List.append_assoc, List.singleton_append] at h
  obtain ⟨stack, hf, next, hd, hend, _⟩ := h.append
  have hshared : due [] (front ++ [last]) = some next := by
    rw [due_append, hf]
    exact hd
  have hnil : next = [] := Option.some.inj (hshared.symm.trans (nested_of_suffix hn hshared))
  exact ⟨fun hb => hend (.inl hb) hnil, fun hb => hend (.inr hb) hnil⟩

theorem Unended.not_closed (h : Unended [] (shared ++ last :: right))
    (hn : IsNested (left ++ shared)) : isCloser last.byte = false := by
  obtain ⟨stack, hd, next, hlast, _⟩ := h.append
  cases Option.some.inj (hd.symm.trans (nested_of_suffix hn hd))
  cases hc : isCloser last.byte with
  | false => rfl
  | true =>
    rcases due_cons hlast with ⟨closer, ho, _⟩ | ⟨outer, _, he, _⟩ | ⟨hi, _⟩
    · rw [closerOf_of_isCloser hc] at ho
      cases ho
    · cases he
    · rw [isCloser_of_isInert hi] at hc
      cases hc

/-- A statement starts behind blanks, at the beginning of a text or behind the end of another
statement. -/
theorem exists_end_of_mem_startsDue (hs : ∀ byte ∈ stack, isCloser byte)
    (h : due stack left = some []) (hm : start ∈ startsDue stack pending position left) :
    ∃ before blanks after, left = before ++ (blanks ++ after) ∧
      start = position + before.length + blanks.length ∧ (∀ cell ∈ blanks, cell.isBlank) ∧
      (before = [] ∧ pending = true ∨ ∃ last, before.getLast? = some last ∧
        (last.byte = 0x3B ∨ last.byte = 0x7D) ∧ due stack before = some []) := by
  induction left generalizing stack pending position with
  | nil => cases hm
  | cons cell rest ih =>
    obtain ⟨middle, hmiddle, hr⟩ := exists_due_of_cons h
    rw [startsDue_cons hmiddle, List.mem_append] at hm
    rcases hm with hm | hm
    · split at hm
      · next hpending =>
        rw [Bool.and_eq_true] at hpending
        exact ⟨[], [], cell :: rest, rfl, List.mem_singleton.1 hm, by simp, .inl ⟨rfl, hpending.1⟩⟩
      · cases hm
    · have hmiddles := isCloser_of_due hs hmiddle
      obtain ⟨before, blanks, after, rfl, rfl, hblanks, hbefore⟩ := ih hmiddles hr hm
      rcases hbefore with ⟨rfl, hpending⟩ | ⟨last, hlast, hbyte, hdue⟩
      · rw [Bool.or_eq_true, Bool.and_eq_true] at hpending
        rcases hpending with hends | ⟨hpending, hblank⟩
        · have hnil := eq_nil_of_endsDue hs hmiddle hends
          refine ⟨[cell], blanks, after, rfl, rfl, hblanks, .inr ⟨cell, rfl, ?_, hnil ▸ hmiddle⟩⟩
          exact (eq_of_endsDue hends).symm
        · refine ⟨[], cell :: blanks, after, rfl, ?_, ?_, .inl ⟨rfl, hpending⟩⟩
          · simp only [List.length_nil, List.length_cons]
            omega
          · exact List.forall_mem_cons.2 ⟨hblank, hblanks⟩
      · refine ⟨cell :: before, blanks, after, rfl, ?_, hblanks, .inr ⟨last, ?_, hbyte, ?_⟩⟩
        · rw [List.length_cons]
          omega
        · rw [List.getLast?_cons, hlast]
          rfl
        · exact (due_step hmiddle before).trans hdue

/-- Up to the semicolon that a search finds no statement ends, unless a brace ends one. -/
theorem unended_of_findFrom {cells : List Cell} {count : Nat} (h : due stack cells = some [])
    (hf : findFrom 0x3B stack.length position cells = some found)
    (hcount : count ≤ found - position) : Unended stack (cells.take count) ∨
      ∃ left brace right, cells.take count = left ++ brace :: right ∧ brace.byte = 0x7D ∧
        due stack (left ++ [brace]) = some [] := by
  induction cells generalizing stack position count with
  | nil => cases hf
  | cons cell rest ih =>
    cases count with
    | zero => exact .inl trivial
    | succ count =>
      obtain ⟨middle, hm, hr⟩ := exists_due_of_cons h
      -- A semicolon with nothing due would be the one that the search finds.
      have hne : isInert cell.byte → ¬ (cell.byte = 0x3B ∧ stack.length = 0) := by
        rintro hi ⟨hb, hl⟩
        rw [hl, findFrom_terminator hi hb] at hf
        cases hf
        omega
      rw [findFrom_step hm hne] at hf
      have hle := (findFrom_bounds hf).1
      rw [List.take_succ_cons]
      by_cases hb : cell.byte = 0x7D ∧ middle = []
      · exact .inr ⟨[], cell, rest.take count, rfl, hb.1, hb.2 ▸ hm⟩
      · rcases ih hr hf (show count ≤ _ by omega) with hu | ⟨left, brace, right, he, hbyte, hdue⟩
        · refine .inl ⟨middle, hm, fun hbyte hnil => ?_, hu⟩
          rcases hbyte with hbyte | hbyte
          · have hi : isInert cell.byte := by rw [hbyte]; rfl
            cases Option.some.inj (hm.symm.trans (due_other hi stack []))
            exact hne hi ⟨hbyte, by rw [hnil]; rfl⟩
          · exact hb ⟨hbyte, hnil⟩
        · exact .inr ⟨cell :: left, brace, right, by rw [he, List.cons_append], hbyte,
            (due_step hm _).trans hdue⟩

end Delimiter

namespace Slice

open Delimiter

/-- A stretch that begins with a word of six letters and in which no statement ends. -/
structure IsPending (cells : List Cell) : Prop where
  unended : Unended [] cells
  word : ∃ first word rest, cells = first :: (word ++ rest) ∧
    first.begins CharClass.isWordStart ∧ isInert first.byte ∧ first.isBlank = false ∧
    (∀ cell ∈ word, cell.within CharClass.isWord) ∧ 6 ≤ (Cell.chars (first :: word)).length

/-- A part that does not begin inside a pending stretch of the slice, nor right behind one. -/
structure Avoids (part slice : Slice) : Prop where
  isPart : IsPart part slice
  start_le : ∀ position cells, IsPending cells → IsPart ⟨position, cells⟩ slice →
    part.start ≤ position + cells.length → position + cells.length ≤ part.stop →
    part.start ≤ position

variable {slice tail whole name after inner next body : Slice} {position : Nat}
  {cells before : List Cell}

theorem Avoids.refl (slice : Slice) : Avoids slice slice :=
  ⟨IsPart.refl _, fun _ _ _ hm _ _ => hm.start_le⟩

theorem Avoids.trans (h : Avoids tail slice) (h' : Avoids slice whole) : Avoids tail whole := by
  refine ⟨h.isPart.trans h'.isPart, fun position cells hp hm hle hstop => ?_⟩
  have hfit := Nat.le_trans hstop h.isPart.stop_le
  have hslice := h'.start_le position cells hp hm (Nat.le_trans h.isPart.start_le hle) hfit
  exact h.start_le position cells hp (hm.of_le h'.isPart hslice hfit) hle hstop

theorem Avoids.start_ne (h : Avoids tail slice) (hp : IsPending cells)
    (hm : IsPart ⟨position, cells⟩ slice) : tail.start ≠ position + cells.length := by
  intro he
  have hle := h.start_le position cells hp hm (Nat.le_of_eq he) (he ▸ tail.start_le_stop)
  obtain ⟨first, word, rest, hcells, _⟩ := hp.word
  rw [hcells, List.length_cons] at he
  omega

/-- A stretch into which a tail begins lies across what precedes the tail and its first cells. -/
theorem exists_overlap (hc : slice.cells = before ++ tail.cells)
    (hs : tail.start = slice.start + before.length) (hm : IsPart ⟨position, cells⟩ slice)
    (hlt : position < tail.start) (hle : tail.start ≤ position + cells.length) :
    ∃ left shared rest rest', before = left ++ shared ∧ cells = shared ++ rest ∧
      tail.cells = rest ++ rest' ∧ shared ≠ [] := by
  obtain ⟨left, right, he, hp⟩ := hm
  simp only at he hp
  rw [hc] at he
  rcases List.append_eq_append_iff.1 he with ⟨shared, hl, _⟩ | ⟨shared, hb, ho⟩
  · rw [hl, List.length_append] at hp
    omega
  · have hne : shared ≠ [] := by
      rintro rfl
      rw [List.append_nil] at hb
      rw [hb] at hs
      omega
    rw [hb, List.length_append] at hs
    rcases List.append_eq_append_iff.1 ho with ⟨rest, hr, _⟩ | ⟨rest, hr, ht⟩
    · have hnil : rest = [] := by
        rw [hr, List.length_append] at hs
        exact List.eq_nil_of_length_eq_zero (by omega)
      rw [hnil, List.append_nil] at hr
      exact ⟨left, shared, [], tail.cells, hb, by rw [hr, List.append_nil], rfl, hne⟩
    · exact ⟨left, shared, rest, right, hb, hr, ht, hne⟩

/-- To avoid pending stretches a tail must not begin in one. -/
theorem avoids_of_overlap (hc : slice.cells = before ++ tail.cells)
    (hs : tail.start = slice.start + before.length)
    (h : ∀ left shared rest rest', before = left ++ shared → tail.cells = rest ++ rest' →
      shared ≠ [] → ¬ IsPending (shared ++ rest)) : Avoids tail slice := by
  have hpart : IsPart tail slice := IsTail.isPart ⟨before, hc, hs⟩
  refine ⟨hpart, fun position cells hp hm hle _ => Nat.le_of_not_lt fun hlt => ?_⟩
  obtain ⟨left, shared, rest, rest', hb, rfl, ht, hne⟩ := exists_overlap hc hs hm hlt hle
  exact h left shared rest rest' hb ht hne hp

theorem IsPending.exists_first {shared rest : List Cell} (h : IsPending (shared ++ rest))
    (hne : shared ≠ []) : ∃ first ∈ shared, first.begins CharClass.isWordStart ∧
      isInert first.byte ∧ first.isBlank = false ∧ shared.head? = some first := by
  obtain ⟨first, word, others, hc, hb, hi, hblank, _⟩ := h.word
  obtain ⟨cell, shared, rfl⟩ := List.exists_cons_of_ne_nil hne
  cases List.head_eq_of_cons_eq hc
  exact ⟨_, List.mem_cons_self, hb, hi, hblank, rfl⟩

theorem avoids_of_blanks (hc : slice.cells = before ++ tail.cells)
    (hs : tail.start = slice.start + before.length) (hb : ∀ cell ∈ before, cell.isBlank) :
    Avoids tail slice := by
  refine avoids_of_overlap hc hs fun left shared rest _ he _ hne hp => ?_
  obtain ⟨first, hm, _, _, hblank, _⟩ := hp.exists_first hne
  rw [hb first (he ▸ List.mem_append_right _ hm)] at hblank
  cases hblank

theorem avoids_next? (h : slice.next? = some next) : Avoids next slice := by
  obtain ⟨rfl, _⟩ := next?_spec h
  exact avoids_of_blanks (takeWhile_append_drop_run ..) rfl fun cell hm => List.mem_takeWhile_imp hm

theorem avoids_skipSpace (slice : Slice) : Avoids slice.skipSpace slice := by
  have happend := takeWhile_append_drop_run (Cell.within CharClass.isSpace) slice
  refine avoids_of_overlap happend rfl fun left shared rest _ he _ hne hp => ?_
  obtain ⟨first, hm, hb, _⟩ := hp.exists_first hne
  have hspace : first.within CharClass.isSpace :=
    List.mem_takeWhile_imp (he ▸ List.mem_append_right left hm)
  cases hc : first.char? with
  | none =>
    rw [Cell.begins, hc] at hb
    cases hb
  | some c =>
    rw [Cell.begins, hc] at hb
    rw [Cell.within, hc] at hspace
    exact Bool.false_ne_true ((CharClass.isSpace_of_isWordStart hb).symm.trans hspace)

/-- A word of fewer letters does not reach into a pending stretch, which would have it go on. -/
theorem avoids_word? (h : slice.word? CharClass.isWord = some (name, after))
    (hk : name.text.length < 6) : Avoids after slice := by
  obtain ⟨head, tail, rest, hc, rfl, rfl, _, _, hmax⟩ := word?_append h
  have happend : slice.cells = (head :: tail) ++ rest := hc
  refine avoids_of_overlap happend rfl fun left shared more rest' he ht hne hp => ?_
  obtain ⟨first, word, others, hcells, hb, _, _, hword, hlength⟩ := hp.word
  have hwithin : ∀ cell ∈ first :: word, cell.within CharClass.isWord := by
    refine List.forall_mem_cons.2 ⟨?_, hword⟩
    exact Cell.within_mono (fun _ => CharClass.isWord_of_isWordStart) (Cell.within_of_begins hb)
  rw [← List.cons_append] at hcells
  have hfit : ∃ beyond, shared = (first :: word) ++ beyond := by
    rcases List.append_eq_append_iff.1 hcells with ⟨inside, hi, hm⟩ | ⟨beyond, hover, _⟩
    · cases inside with
      | nil => exact ⟨[], by rw [hi, List.append_nil, List.append_nil]⟩
      | cons cell inside =>
        have hin : cell ∈ first :: word := hi ▸ List.mem_append_right _ List.mem_cons_self
        have hout := hmax cell (by simp only at ht; rw [ht, hm]; rfl)
        exact absurd (hout.symm.trans (hwithin cell hin)) Bool.false_ne_true
    · exact ⟨beyond, hover⟩
  obtain ⟨beyond, rfl⟩ := hfit
  have htext : (Cell.chars (head :: tail)).length < 6 := by
    rwa [text, Cell.text, String.length_ofList] at hk
  rw [he, Cell.chars, List.filterMap_append, List.filterMap_append, List.length_append,
    List.length_append] at htext
  rw [Cell.chars] at hlength
  omega

/-- A bracket that was opened before a pending stretch is not closed in it. -/
theorem IsPaired.avoids_parens (h : IsPaired slice) (hp : slice.startsWith '(')
    (hb : slice.block? = some (inner, after)) : Avoids after slice := by
  obtain ⟨start, cells⟩ := slice
  cases cells with
  | nil => cases hb
  | cons opening rest =>
    have hbyte : opening.byte = 0x28 := of_decide_eq_true hp
    have hc : closerOf opening.byte = some 0x29 := by rw [hbyte]; rfl
    obtain ⟨inside, closing, right, hblock, rfl, hclosing, hn⟩ := exists_block? start h.nested hc
    rw [hblock] at hb
    cases hb
    have happend : opening :: (inside ++ closing :: right) =
        (opening :: (inside ++ [closing])) ++ right := by simp
    refine avoids_of_overlap happend ?_ ?_
    · simp only [List.length_cons, List.length_append, List.length_nil]
      omega
    · intro left shared rest rest' he _ hne hpending
      cases left with
      | nil =>
        obtain ⟨first, _, _, hi, _, hf⟩ := hpending.exists_first hne
        rw [← List.nil_append shared, ← he] at hf
        cases hf
        rw [hbyte] at hi
        cases hi
      | cons _ left =>
        obtain ⟨front, last, rfl⟩ : ∃ front last, shared = front ++ [last] :=
          ⟨_, _, (List.dropLast_concat_getLast hne).symm⟩
        rw [List.cons_append, ← List.append_assoc] at he
        obtain ⟨hinside, hlast⟩ := List.append_inj' (List.cons.inj he).2 rfl
        cases hlast
        have hunended := hpending.unended
        rw [List.append_assoc, List.singleton_append] at hunended
        have hcloser := hunended.not_closed (hinside ▸ hn)
        rw [hclosing] at hcloser
        cases hcloser

theorem Ends.avoids (h : Ends tail slice) : Avoids tail slice := by
  obtain ⟨before, last, hc, hs, hn, hl, hb⟩ := h
  refine avoids_of_overlap hc hs fun left shared rest _ he _ hne hp => ?_
  have hshared : shared.getLast? = some last := by
    rw [he, List.getLast?_append] at hl
    cases ho : shared.getLast? with
    | none => exact absurd (List.getLast?_eq_none_iff.1 ho) hne
    | some found =>
      rw [ho] at hl
      exact hl
  obtain ⟨hsemicolon, hbrace⟩ := hp.unended.not_ended (he ▸ hn) hshared
  exact hb.elim hsemicolon hbrace

theorem IsPaired.avoids_heading? {heading : Heading} (h : IsPaired slice)
    (hh : slice.heading? = some heading) (hk : heading.name.text.length < 6) :
    Avoids heading.after slice := by
  rw [heading?, Option.bind_eq_some_iff] at hh
  obtain ⟨⟨name, list⟩, ho, hh⟩ := hh
  rw [opening?, Option.bind_eq_some_iff] at ho
  obtain ⟨⟨name', rest⟩, hw, ho⟩ := ho
  obtain ⟨hp, he⟩ := Option.ite_none_right_eq_some.1 ho
  cases he
  obtain ⟨⟨inner, after⟩, hb, he⟩ := Option.map_eq_some_iff.1 hh
  cases he
  have hrest := h.of_follows (h.continues_word? hw).follows
  have hlist := hrest.of_follows hrest.continues_skipSpace.follows
  exact (hlist.avoids_parens hp hb).trans ((avoids_skipSpace rest).trans (avoids_word? hw hk))

theorem avoids_else (he : slice.next?.bind (Slice.after? "else") = some after) :
    Avoids after slice := by
  obtain ⟨next, hn, ha⟩ := Option.bind_eq_some_iff.1 he
  obtain ⟨name, hw, hname⟩ := exists_word?_of_after? ha
  exact (avoids_word? hw (by rw [hname]; decide)).trans (avoids_next? hn)

theorem IsPaired.avoids_heads {head : Slice} (h : IsPaired slice)
    (hm : head ∈ slice.heads .topLevel) : Avoids head slice := by
  rw [heads, ← map_fromOffset_startsFrom, List.mem_map] at hm
  obtain ⟨start, hstart, rfl⟩ := hm
  obtain ⟨before, blanks, rest, hc, rfl, hblanks, hbefore⟩ :=
    exists_end_of_mem_startsDue (fun byte hb => by cases hb) h.nested hstart
  have hhead : slice.fromOffset (slice.start + before.length + blanks.length) =
      ⟨slice.start + before.length + blanks.length, rest⟩ := by
    rw [Nat.add_assoc, ← List.length_append, ← fromOffset_append, List.append_assoc, ← hc]
  rw [hhead]
  have hblank : Avoids ⟨slice.start + before.length + blanks.length, rest⟩
      ⟨slice.start + before.length, blanks ++ rest⟩ := avoids_of_blanks rfl rfl hblanks
  refine hblank.trans ?_
  rcases hbefore with ⟨rfl, _⟩ | ⟨last, hlast, hbyte, hdue⟩
  · exact avoids_of_blanks hc rfl fun cell hm => by cases hm
  · exact Ends.avoids ⟨before, last, hc, rfl, hdue, hlast, hbyte⟩

theorem avoids_block (hs : slice.startsWith '{') (hp : IsPart inner slice)
    (hstart : inner.start = slice.start + 1) : Avoids inner slice := by
  refine ⟨hp, fun position cells hpending hm hle _ => ?_⟩
  have hslice := hm.start_le
  simp only at hslice
  rcases Nat.eq_or_lt_of_le hslice with he | hlt
  · obtain ⟨first, word, rest, hcells, _, hi, _⟩ := hpending.word
    obtain ⟨before, after, hc, hb⟩ := hm
    simp only at hc hb
    cases List.eq_nil_of_length_eq_zero (show before.length = 0 by omega)
    rw [startsWith, hc, hcells] at hs
    have hbyte : first.byte = 0x7B := of_decide_eq_true hs
    rw [hbyte] at hi
    cases hi
  · omega

end Slice

namespace FunctionDefinition

open Slice (IsPaired)

variable {text head head' : Slice} {function function' : FunctionDefinition} {offset : Nat}

theorem stop_lt_start (hp : IsPaired text) (hh : head ∈ text.heads .topLevel)
    (hr : read? head = some function) (hh' : head' ∈ text.heads .topLevel)
    (hr' : read? head' = some function') (hlt : head.start < head'.start) :
    function.body.stop < function'.body.start := by
  have hhead := hp.of_follows (Slice.follows_of_mem_heads hp.nested hh).1
  have hstop := (read?_paired hhead hr).2 _ (Slice.starts_of_heads hp.nested hh hh' hlt)
  obtain ⟨_, hopening, _, hstart, _⟩ := read?_spec hr'
  omega

theorem eq_of_bounds (hp : IsPaired text) (hh : head ∈ text.heads .topLevel)
    (hr : read? head = some function) (hh' : head' ∈ text.heads .topLevel)
    (hr' : read? head' = some function')
    (hb : function.body.start ≤ offset ∧ offset ≤ function.body.stop)
    (hb' : function'.body.start ≤ offset ∧ offset ≤ function'.body.stop) :
    function = function' := by
  rcases Nat.lt_trichotomy head.start head'.start with hlt | he | hlt
  · have := stop_lt_start hp hh hr hh' hr' hlt
    omega
  · rw [(Slice.isTail_of_mem_heads hh).eq (Slice.isTail_of_mem_heads hh') he, hr'] at hr
    exact (Option.some.inj hr).symm
  · have := stop_lt_start hp hh' hr' hh hr hlt
    omega

end FunctionDefinition

namespace Outline

open Slice (IsPart IsPaired Follows Avoids IsPending)

variable {levels : Nat} {text slice body inner after other part : Slice} {outline tree : Outline}

theorem avoids_bodyRange? (hp : IsPaired slice)
    (h : bodyRange? levels slice = some (body, inner, after)) :
    Avoids inner slice ∧ Avoids after slice := by
  rw [bodyRange?, Option.bind_eq_some_iff] at h
  obtain ⟨body', hn, h⟩ := h
  obtain ⟨⟨inner', after'⟩, hr, he⟩ := Option.map_eq_some_iff.1 h
  cases he
  have hbody := Slice.avoids_next? hn
  have hpaired := hp.of_follows (Slice.continues_next? hn).follows
  suffices hinner : Avoids inner body ∧ Avoids after body from
    ⟨hinner.1.trans hbody, hinner.2.trans hbody⟩
  split at hr
  · next hb =>
    obtain ⟨inner', rest, hblock, hstart, hends⟩ := hpaired.ends_block hb
    rw [hblock] at hr
    cases hr
    exact ⟨Slice.avoids_block hb (Slice.block?_spec hblock).1 hstart, hends.avoids⟩
  · obtain ⟨rest, ha, he⟩ := Option.map_eq_some_iff.1 hr
    cases he
    refine ⟨⟨Slice.isPart_toOffset .., fun _ _ _ hm _ _ => hm.start_le⟩, ?_⟩
    exact (ends_afterStatement? hpaired ha).avoids

theorem Begins.avoids (hp : IsPaired slice) (h : Begins levels slice other) :
    Avoids other slice ∧ IsPaired other := by
  cases h with
  | first => exact ⟨Avoids.refl _, hp⟩
  | second hr he =>
    have hmiddle := (isEnclosed_bodyRange? hp hr).2
    exact ⟨(Slice.avoids_else he).trans (avoids_bodyRange? hp hr).2,
      hp.of_follows (follows_branch hp hmiddle he)⟩

/-- Whether the node is a return or a call that is a statement of its own. -/
def IsSimple (outline : Outline) : Prop :=
  outline.label.kind = .returnStatement ∨ outline.label.role = (.callExpression, .statement)

theorem IsSimple.kind (h : IsSimple tree) :
    tree.label.kind ∈ [NodeKind.returnStatement, .callExpression] := by
  rcases h with h | h
  · rw [h]
    decide
  · rw [show tree.label.kind = .callExpression from congrArg Prod.fst h]
    decide

/-- What is read as a statement from a part of the slice that avoids its pending stretches. -/
def Found (slice : Slice) (tree : Outline) : Prop :=
  ∃ levels part, Avoids part slice ∧ IsPaired part ∧
    statement? levels (below levels) part = some tree

theorem Found.trans (h : Found part tree) (hp : Avoids part slice) : Found slice tree := by
  obtain ⟨levels, found, hfound, hstatement⟩ := h
  exact ⟨levels, found, hfound.trans hp, hstatement⟩

/-- The returns and the calls under a statement are found in it. -/
def FoundUnder (_ : Nat) (slice : Slice) (outline : Outline) : Prop :=
  IsPaired slice → ∀ child ∈ outline.children, ∀ tree ∈ child.subtrees, IsSimple tree →
    Found slice tree

theorem FoundUnder.found (h : FoundUnder levels slice outline) (hp : IsPaired slice)
    (hs : statement? levels (below levels) slice = some outline) (hm : tree ∈ outline.subtrees)
    (hi : IsSimple tree) : Found slice tree := by
  obtain ⟨item, children⟩ := outline
  rcases Tree.mem_subtrees_node.1 hm with rfl | ⟨child, hc, ht⟩
  · exact ⟨levels, slice, Avoids.refl _, hp, hs⟩
  · exact h hp child hc tree ht hi

theorem not_isSimple_leaf {kind : NodeKind} {relation : Relation}
    (hk : kind ∉ [.returnStatement, .callExpression])
    (hm : tree ∈ (leaf kind relation slice).subtrees) : ¬ IsSimple tree := by
  rcases Tree.mem_subtrees_node.1 hm with rfl | ⟨_, hc, _⟩
  · exact fun h => hk h.kind
  · cases hc

theorem not_isSimple_ofDeclaration (relation : Relation) (declaration : Declaration)
    (hm : tree ∈ (ofDeclaration relation declaration).subtrees) : ¬ IsSimple tree := by
  rcases Tree.mem_subtrees_node.1 hm with rfl | ⟨child, hc, ht⟩
  · rintro (h | h)
    · cases h
    · cases h
  · obtain ⟨value, _, rfl⟩ := List.mem_map.1 hc
    exact not_isSimple_leaf (by decide) ht

theorem not_isSimple_under_call (relation : Relation) (name inner : Slice) {child : Outline}
    (hc : child ∈ (ofCall relation name inner).children) (hm : tree ∈ child.subtrees) :
    ¬ IsSimple tree := by
  obtain ⟨piece, _, rfl⟩ := List.mem_map.1 hc
  exact not_isSimple_leaf (by decide) hm

theorem not_isSimple_under_return {child : Outline} (h : return? slice = some outline)
    (hc : child ∈ outline.children) (hm : tree ∈ child.subtrees) : ¬ IsSimple tree := by
  obtain ⟨_, _, value, _, _, _, rfl⟩ := return?_spec h
  obtain ⟨name, inner, rfl, _⟩ := findCall?_spec (Option.mem_toList.1 hc)
  rcases Tree.mem_subtrees_node.1 hm with rfl | ⟨argument, ha, ht⟩
  · rintro (h | h)
    · cases h
    · cases h
  · exact not_isSimple_under_call .call name inner ha ht

/-- The statements of a body and the further conditionals of a chain are found where they begin. -/
theorem found_branch {child : Outline} (hp : IsPaired slice)
    (h : Branch FoundUnder levels slice child after) (hm : tree ∈ child.subtrees)
    (hi : IsSimple tree) : Found slice tree := by
  cases h with
  | body hbody =>
    obtain ⟨hr, hs⟩ := hbody
    rcases Tree.mem_subtrees_node.1 hm with rfl | ⟨statement, hstatement, ht⟩
    · rcases hi with h | h <;> cases h
    · obtain ⟨next, hl, head, hh, hread⟩ := mem_statementsBelow.1 hstatement
      have hinner := hp.of_isEnclosed (isEnclosed_bodyRange? hp hr).1
      have hhead := hinner.of_follows (Slice.follows_of_mem_heads hinner.nested hh).1
      have hfound := (hs next hl head hh statement hread).found hhead hread ht hi
      exact (hfound.trans (hinner.avoids_heads hh)).trans (avoids_bodyRange? hp hr).1
  | @chained next first _ conditional hl hn hc hunder =>
    have hk := kind_conditional? hc
    have hfirst := hp.of_follows (Slice.continues_next? hn).follows
    obtain ⟨item, children⟩ := conditional
    rcases Tree.mem_subtrees_node.1 hm with rfl | ⟨grandchild, hg, ht⟩
    · have hrole : item.kind = .ifStatement := hk
      exact absurd (hrole ▸ hi.kind) (by decide)
    · exact (hunder hfirst grandchild hg tree ht hi).trans (Slice.avoids_next? hn)

theorem foundUnder_statement? (h : statement? levels (below levels) slice = some outline) :
    FoundUnder levels slice outline := by
  refine statement?_induct (P := FoundUnder) ?_ ?_ ?_ ?_ h
  · intro _ _ declaration _ _ child hc tree hm hi
    exact absurd hi (not_isSimple_ofDeclaration .statement declaration
      (Tree.mem_subtrees_node.2 (.inr ⟨child, hc, hm⟩)))
  · intro _ _ outline hr _ child hc tree hm hi
    exact absurd hi (not_isSimple_under_return hr hc hm)
  · intro _ _ outline hcall _ child hc tree hm hi
    obtain ⟨heading, _, rfl⟩ := callStatement?_spec hcall
    exact absurd hi (not_isSimple_under_call _ _ _ hc hm)
  · intro levels slice after outline h hb hp child hc tree hm hi
    have hkinds : ∀ entry ∈ clauses, entry.1 ∉ [.returnStatement, .callExpression] := by decide
    have hwords : ∀ word ∈ ["if", "for", "while"], word.length < 6 := by decide
    rw [h.outline_eq] at hc
    rcases List.mem_append.1 hc with hc | hc
    · obtain ⟨kind, relation, part, rfl, hk, _⟩ := h.leaf_of_mem child hc
      exact absurd hi (not_isSimple_leaf (hkinds _ hk) hm)
    · obtain ⟨other, rest, hbegins, hbranch⟩ := hb.exists_branch hc
      have hheading := hp.of_follows (hp.continues_heading? h.read).follows
      obtain ⟨hother, hpaired⟩ := hbegins.avoids hheading
      exact (found_branch hpaired hbranch hm hi).trans
        (hother.trans (hp.avoids_heading? h.read (hwords _ h.keyword)))

theorem exists_found (hp : IsPaired text) (hm : tree ∈ (ofText text).subtrees)
    (hi : IsSimple tree) : ∃ head ∈ text.heads .topLevel, ∃ function,
      FunctionDefinition.read? head = some function ∧ Found function.body tree := by
  rw [ofText, Tree.mem_subtrees_node] at hm
  rcases hm with rfl | ⟨item, hitem, ht⟩
  · rcases hi with h | h <;> cases h
  have hitem : item ∈ (ofText text).children := hitem
  rcases mem_children_ofText.1 hitem with ⟨function, hf, rfl⟩ | ⟨declaration, _, rfl⟩
  · obtain ⟨head, hh, hr⟩ := FunctionDefinition.mem_findAll.1 hf
    have hbody := FunctionDefinition.isPaired_body hp hh hr
    refine ⟨head, hh, function, hr, ?_⟩
    rw [ofFunction, Tree.mem_subtrees_node] at ht
    rcases ht with rfl | ⟨child, hc, ht⟩
    · rcases hi with h | h <;> cases h
    rcases List.mem_append.1 hc with hc | hc
    · obtain ⟨parameter, _, rfl⟩ := List.mem_map.1 hc
      rcases Tree.mem_subtrees_node.1 ht with rfl | ⟨_, hnone, _⟩
      · rcases hi with h | h <;> cases h
      · cases hnone
    · rw [List.mem_singleton.1 hc, Tree.mem_subtrees_node] at ht
      rcases ht with rfl | ⟨statement, hs, ht⟩
      · rcases hi with h | h <;> cases h
      · obtain ⟨start, hstart, hread⟩ := mem_level_block.1 hs
        have hpaired := hbody.of_follows (Slice.follows_of_mem_heads hbody.nested hstart).1
        exact ((foundUnder_statement? hread).found hpaired hread ht hi).trans
          (hbody.avoids_heads hstart)
  · exact absurd hi (not_isSimple_ofDeclaration _ _ ht)

/-- From a return to the call under it there is a pending stretch, unless a brace ends a statement
there. -/
theorem pending_return? {call : Outline} (hp : IsPaired slice) (h : return? slice = some outline)
    (hc : call ∈ outline.children) : ∃ cells, IsPart ⟨slice.start, cells⟩ slice ∧
      call.label.offset = slice.start + cells.length ∧ (IsPending cells ∨
        ∃ left brace right, cells = left ++ brace :: right ∧ brace.byte = 0x7D ∧
          Delimiter.IsNested (left ++ [brace])) := by
  obtain ⟨rest, stop, value, ha, hf, rfl, rfl⟩ := return?_spec h
  obtain ⟨tail, name, list, _, _, ht, ho, _, rfl⟩ := findCall?_begins (Option.mem_toList.1 hc)
  obtain ⟨keyword, hw, hkeyword⟩ := Slice.exists_word?_of_after? ha
  have hinert := hp.isInert_word? hw
  have hrest := hp.of_follows (hp.continues_word? hw).follows
  have hbounds := Slice.find?_bounds hf
  have hstart : rest.start ≤ name.start ∧ name.start ≤ stop := by
    have hvalue := Slice.isPart_trim (rest.toOffset stop)
    have hlower := (hvalue.trans (Slice.isPart_toOffset ..)).start_le
    have hupper := Nat.le_trans hvalue.stop_le (Slice.stop_toOffset_le hbounds.1)
    rw [(Slice.opening?_spec ho).2.1]
    exact ⟨Nat.le_trans hlower ht.isPart.start_le,
      Nat.le_trans tail.start_le_stop (Nat.le_trans ht.isPart.stop_le hupper)⟩
  obtain ⟨first, word, others, hcells, rfl, rfl, hb, hword, _⟩ := Slice.word?_append hw
  obtain ⟨count, hcount⟩ := Nat.exists_eq_add_of_le hstart.1
  have hlength : (others.take count).length = count := by
    simp only [Slice.stop] at hbounds
    simp only at hcount
    rw [List.length_take]
    omega
  refine ⟨(first :: word) ++ others.take count, ⟨[], others.drop count, ?_, rfl⟩, ?_, ?_⟩
  · rw [hcells, List.nil_append, List.append_assoc, List.take_append_drop, List.cons_append]
  · rw [List.length_append, hlength, ← Nat.add_assoc]
    exact hcount
  · rcases Delimiter.unended_of_findFrom hrest.nested hf (show count ≤ _ by omega) with
      hunended | ⟨left, brace, right, he, hbyte, hdue⟩
    · refine .inl ⟨Delimiter.unended_of_inert hinert hunended, first, word, _, rfl, hb,
        (hinert first List.mem_cons_self).1, ?_, hword, ?_⟩
      · have hfaithful := hp.faithful first (hcells ▸ List.mem_cons_self)
        have hletter := Cell.within_mono (fun _ => CharClass.isWord_of_isWordStart)
          (Cell.within_of_begins hb)
        cases hblank : first.isBlank with
        | false => rfl
        | true => exact absurd (hfaithful.not_isWord_of_isBlank hblank) (by rw [hletter]; decide)
      · have hletters := congrArg String.length hkeyword
        rw [Slice.text, Cell.text, String.length_ofList] at hletters
        rw [hletters]
        decide
    · refine .inr ⟨(first :: word) ++ left, brace, right, ?_, hbyte, ?_⟩
      · rw [he, List.append_assoc]
      · rw [List.append_assoc]
        exact Delimiter.IsNested.append
          (Delimiter.isNested_of_inert fun cell hm => (hinert cell hm).1) hdue

theorem return?_of_statement? (h : statement? levels (below levels) slice = some outline)
    (hk : outline.label.kind = .returnStatement) : return? slice = some outline := by
  cases statement?_spec h with
  | declared _ he =>
    rw [he] at hk
    cases hk
  | returned _ hr => exact hr
  | called hc =>
    obtain ⟨_, _, rfl⟩ := callStatement?_spec hc
    cases hk
  | headed hh =>
    have hkinds : ∀ kind ∈ [NodeKind.ifStatement, .forStatement, .whileStatement],
        kind ≠ .returnStatement := by decide
    rw [hh.outline_eq] at hk
    exact absurd hk (hkinds _ hh.kind)

/-- Where a statement begins with a call under a return, a brace closes in front of the call what
the return has opened. -/
theorem exists_brace {returned call statement : Outline} (hp : IsPaired text)
    (hr : returned ∈ (ofText text).subtrees) (hk : returned.label.kind = .returnStatement)
    (hc : call ∈ returned.children) (hs : statement ∈ (ofText text).subtrees)
    (hrole : statement.label.role = (.callExpression, .statement))
    (he : statement.label.offset = call.label.offset) :
    ∃ cells brace, IsPart ⟨returned.label.offset, cells ++ [brace]⟩ text ∧ brace.byte = 0x7D ∧
      Delimiter.IsNested (cells ++ [brace]) ∧
      returned.label.offset + cells.length < call.label.offset := by
  obtain ⟨head, hh, function, hread, _, part, hpart, hpaired, hreturned⟩ :=
    exists_found hp hr (.inl hk)
  obtain ⟨head', hh', function', hread', _, part', hpart', _, hstatement⟩ :=
    exists_found hp hs (.inr hrole)
  have hstart := (offset_statement? hstatement).symm.trans he
  rw [offset_statement? hreturned]
  have hbody := (FunctionDefinition.read?_spec hread).2.2.1.trans
    (Slice.isTail_of_mem_heads hh).isPart
  obtain ⟨cells, hcells, hoffset, hpending | ⟨left, brace, right, rfl, hbyte, hn⟩⟩ :=
    pending_return? hpaired (return?_of_statement? hreturned hk) hc
  · -- Both are found in the same body, where no statement begins right behind a pending stretch.
    have hstretch := hcells.trans hpart.isPart
    have hsame : function = function' := by
      have hlower : function.body.start ≤ part.start := hstretch.start_le
      have hupper : part.start + cells.length ≤ function.body.stop := hstretch.stop_le
      have hlower' := hpart'.isPart.start_le
      have hupper' := Nat.le_trans part'.start_le_stop hpart'.isPart.stop_le
      exact FunctionDefinition.eq_of_bounds hp hh hread hh' hread' (by omega) ⟨hlower', hupper'⟩
    exact absurd (hstart.trans hoffset) ((hsame ▸ hpart').start_ne hpending hstretch)
  · refine ⟨left, brace, ?_, hbyte, hn, ?_⟩
    · have hprefix : IsPart ⟨part.start, left ++ [brace]⟩ ⟨part.start, left ++ brace :: right⟩ :=
        ⟨[], right, by simp, rfl⟩
      exact hprefix.trans (hcells.trans (hpart.isPart.trans hbody))
    · rw [hoffset, List.length_append, List.length_cons]
      omega

theorem exists_return {call : Outline} (hm : call ∈ (ofText text).subtrees)
    (hr : call.label.relation = .call) : ∃ returned ∈ (ofText text).subtrees,
      returned.label.kind = .returnStatement ∧ call ∈ returned.children := by
  rcases Tree.eq_or_mem_children hm with rfl | ⟨parent, hp, hc⟩
  · cases hr
  · have hroles := (produced_ofText text parent hp).1
    have hrole : call.label.role ∈ (parent.children.map Tree.label).map Item.role :=
      List.mem_map_of_mem (List.mem_map_of_mem hc)
    exact ⟨parent, hp, NodeKind.eq_returnStatement hroles hrole hr, hc⟩

end Outline

/-- If the brackets of a text are paired, a call under a return is a statement as well only behind a
brace that closes what the value of the return has opened. -/
theorem exists_brace_in_return (text : String)
    (hn : Delimiter.IsNested (Source.ofString text).masked) :
    ∀ call ∈ (structuralTree text).subtrees, ∀ statement ∈ (structuralTree text).subtrees,
      call.label.role = (.callExpression, .call) →
      statement.label.role = (.callExpression, .statement) →
      statement.label.offset = call.label.offset →
      ∃ returned ∈ (structuralTree text).subtrees, returned.label.kind = .returnStatement ∧
        call ∈ returned.children ∧ ∃ cells brace,
          Slice.IsPart ⟨returned.label.offset, cells ++ [brace]⟩ (Source.ofString text).view ∧
          brace.byte = 0x7D ∧ Delimiter.IsNested (cells ++ [brace]) ∧
          returned.label.offset + cells.length < call.label.offset := by
  simp only [structuralTree, Source.tree, Tree.subtrees_map, List.mem_map]
  rintro _ ⟨call, hcall, rfl⟩ _ ⟨statement, hstatement, rfl⟩ hc hs he
  simp only [Source.label_describe] at hc hs he
  obtain ⟨returned, hr, hk, hm⟩ := Outline.exists_return hcall (congrArg Prod.snd hc)
  have hp : (Source.ofString text).view.IsPaired := ⟨Source.isFaithful_view text, hn⟩
  have hbrace := Outline.exists_brace hp hr hk hm hstatement hs he
  refine ⟨_, ⟨returned, hr, rfl⟩, ?_⟩
  simp only [Source.label_describe, Source.children_describe]
  exact ⟨hk, List.mem_map_of_mem hm, hbrace⟩

/-- A return with a call behind the braces in its value. -/
def callBehindBraces : String :=
  "void f() \x7b return \x7b \x7d g(); \x7d"

theorem exists_brace_in_return_callBehindBraces :
    ∃ call ∈ (structuralTree callBehindBraces).subtrees,
      ∃ returned ∈ (structuralTree callBehindBraces).subtrees,
        returned.label.kind = .returnStatement ∧ call ∈ returned.children ∧ ∃ cells brace,
          Slice.IsPart ⟨returned.label.offset, cells ++ [brace]⟩
            (Source.ofString callBehindBraces).view ∧
          brace.byte = 0x7D ∧ Delimiter.IsNested (cells ++ [brace]) ∧
          returned.label.offset + cells.length < call.label.offset := by
  obtain ⟨call, hcall, statement, hstatement, hc, hs, he⟩ :
      ∃ call ∈ (structuralTree callBehindBraces).subtrees,
        ∃ statement ∈ (structuralTree callBehindBraces).subtrees,
          call.label.role = (.callExpression, .call) ∧
          statement.label.role = (.callExpression, .statement) ∧
          statement.label.offset = call.label.offset := by
    decide +kernel
  exact ⟨call, hcall,
    exists_brace_in_return _ (by decide +kernel) call hcall statement hstatement hc hs he⟩

/-- The call begins a statement of the body as well. -/
theorem not_disjoint_callBehindBraces :
    ¬ ∀ call ∈ (structuralTree callBehindBraces).walk,
      ∀ statement ∈ (structuralTree callBehindBraces).walk,
        call.role = (.callExpression, .call) → statement.role = (.callExpression, .statement) →
          call.offset ≠ statement.offset := by
  decide +kernel

end CodeOutline
