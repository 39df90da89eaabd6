import CodeOutline.Proofs.Delimiter.Outside

namespace CodeOutline

/-- The slice with more text behind it. -/
def Slice.append (slice : Slice) (right : List Cell) : Slice :=
  ⟨slice.start, slice.cells ++ right⟩

namespace Delimiter

/-- The text closes the brackets that are due, and ends with a semicolon and blanks, a line break
among them. -/
inductive Concludes : List UInt8 → List Cell → Prop where
  | ending {semicolon : Cell} {blanks : List Cell} (hs : semicolon.byte = 0x3B)
      (hb : ∀ cell ∈ blanks, cell.isBlank) (hl : ∃ cell ∈ blanks, cell.byte = 0x0A) :
      Concludes [] (semicolon :: blanks)
  | opener {stack : List UInt8} {cell : Cell} {closer : UInt8} {rest : List Cell}
      (ho : closerOf cell.byte = some closer) (h : Concludes (closer :: stack) rest) :
      Concludes stack (cell :: rest)
  | closer {stack : List UInt8} {cell : Cell} {rest : List Cell} (hc : isCloser cell.byte)
      (h : Concludes stack rest) : Concludes (cell.byte :: stack) (cell :: rest)
  | inert {stack : List UInt8} {cell : Cell} {rest : List Cell} (hi : isInert cell.byte)
      (h : Concludes stack rest) : Concludes stack (cell :: rest)

variable {stack inner outer : List UInt8} {cells left right : List Cell} {closer : UInt8}
  {position : Nat}

theorem concludes_of_due {semicolon : Cell} {blanks : List Cell} (h : due stack left = some [])
    (hs : semicolon.byte = 0x3B) (hb : ∀ cell ∈ blanks, cell.isBlank)
    (hl : ∃ cell ∈ blanks, cell.byte = 0x0A) : Concludes stack (left ++ semicolon :: blanks) := by
  induction left generalizing stack with
  | nil =>
    cases h
    exact .ending hs hb hl
  | cons cell left ih =>
    rcases due_cons h with ⟨closer, ho, hr⟩ | ⟨outer, hc, rfl, hr⟩ | ⟨hi, hr⟩
    · exact .opener ho (ih hr)
    · exact .closer hc (ih hr)
    · exact .inert hi (ih hr)

/-- A closer without an opener ends a search. -/
theorem findFrom_outer {terminator : UInt8} {cell : Cell} (h : isCloser cell.byte)
    (rest : List Cell) : findFrom terminator 0 position (cell :: rest) = none := by
  rw [findFrom.eq_def]
  simp only [not_isOpener_of_isCloser h, h, if_true, Bool.false_eq_true, if_false]

/-- Whether the scan for starts finds those of the text and then those of a text that begins behind
it. -/
def Restarts (stack : List UInt8) (cells right : List Cell) : Prop :=
  ∀ pending position,
    headsFrom .topLevel (stack.count 0x7D) (stack.count 0x29 + stack.count 0x5D) pending position
        (cells ++ right) =
      (headsFrom .topLevel (stack.count 0x7D) (stack.count 0x29 + stack.count 0x5D) pending position
        cells).map (·.append right) ++
          headsFrom .topLevel 0 0 true (position + cells.length) right

theorem Restarts.cons {stack' : List UInt8} {cell : Cell} (hd : due stack [cell] = some stack')
    (h : Restarts stack' cells right) : Restarts stack (cell :: cells) right := by
  intro pending position
  obtain ⟨hbraces, hparens⟩ := counts_due hd
  have hlength : position + (cell :: cells).length = position + 1 + cells.length := by
    rw [List.length_cons]
    omega
  rw [hlength, List.cons_append]
  simp only [headsFrom, hbraces, hparens, h _ (position + 1)]
  split <;> rfl

namespace Concludes

/-- What is shown of a text from its end on, whatever its brackets are. -/
theorem ends (P : List Cell → Prop)
    (hend : ∀ semicolon blanks, semicolon.byte = 0x3B → (∀ cell ∈ blanks, cell.isBlank) →
      (∃ cell ∈ blanks, cell.byte = 0x0A) → P (semicolon :: blanks))
    (hcons : ∀ cell rest, P rest → P (cell :: rest)) (h : Concludes stack cells) : P cells := by
  induction h with
  | ending hs hb hl => exact hend _ _ hs hb hl
  | opener _ _ ih => exact hcons _ _ ih
  | closer _ _ ih => exact hcons _ _ ih
  | inert _ _ ih => exact hcons _ _ ih

theorem exists_semicolon (h : Concludes stack cells) : ∃ cell ∈ cells, cell.byte = 0x3B := by
  refine h.ends (fun cells => ∃ cell ∈ cells, cell.byte = 0x3B)
    (fun semicolon _ hs _ _ => ⟨semicolon, List.mem_cons_self, hs⟩) ?_
  rintro cell rest ⟨semicolon, hm, hs⟩
  exact ⟨semicolon, List.mem_cons_of_mem _ hm, hs⟩

theorem due_eq (h : Concludes stack cells) : due stack cells = some [] := by
  induction h with
  | ending hs hb =>
    have hi : isInert _ := hs ▸ (show isInert 0x3B from rfl)
    rw [due_other hi]
    exact due_inert (fun cell hm => isInert_of_isBlank (hb cell hm)) []
  | opener ho _ ih => rw [due_opener ho, ih]
  | closer hc _ ih => rw [due_closer hc, ih]
  | inert hi _ ih => rw [due_other hi, ih]

theorem of_append (h : Concludes stack (left ++ right)) (hr : ∃ cell ∈ right, cell.isBlank = false) :
    ∃ stack', due stack left = some stack' ∧ Concludes stack' right := by
  induction left generalizing stack with
  | nil => exact ⟨stack, rfl, h⟩
  | cons cell left ih =>
    rw [List.cons_append] at h
    cases h with
    | ending hs hb =>
      obtain ⟨solid, hm, hn⟩ := hr
      exact absurd (hn.symm.trans (hb solid (List.mem_append_right _ hm))) Bool.false_ne_true
    | opener ho h =>
      rw [due_opener ho]
      exact ih h
    | closer hc h =>
      rw [due_closer hc]
      exact ih h
    | inert hi h =>
      rw [due_other hi]
      exact ih h

theorem exists_closing (h : Concludes (inner ++ closer :: stack) cells) :
    ∃ left closing right, cells = left ++ closing :: right ∧ due inner left = some [] ∧
      closing.byte = closer ∧ Concludes stack right := by
  generalize hs : inner ++ closer :: stack = whole at h
  induction h generalizing inner with
  | ending => exact absurd hs (by simp)
  | @opener whole cell other rest ho _ ih =>
    subst hs
    obtain ⟨left, closing, right, rfl, hl, hb, hr⟩ := @ih (other :: inner) rfl
    exact ⟨cell :: left, closing, right, rfl, (due_opener ho ..).trans hl, hb, hr⟩
  | @closer whole cell rest hc h ih =>
    cases inner with
    | nil =>
      cases hs
      exact ⟨[], cell, rest, rfl, rfl, rfl, h⟩
    | cons other inner =>
      cases hs
      obtain ⟨left, closing, right, rfl, hl, hb, hr⟩ := ih rfl
      exact ⟨cell :: left, closing, right, rfl, (due_closer hc ..).trans hl, hb, hr⟩
  | @inert whole cell rest hi _ ih =>
    obtain ⟨left, closing, right, rfl, hl, hb, hr⟩ := ih hs
    exact ⟨cell :: left, closing, right, rfl, (due_other hi ..).trans hl, hb, hr⟩

theorem findFrom_append (h : Concludes (inner ++ outer) cells) (right : List Cell) :
    findFrom 0x3B inner.length position (cells ++ right) =
      findFrom 0x3B inner.length position cells := by
  generalize hs : inner ++ outer = whole at h
  induction h generalizing inner position with
  | ending hsemi =>
    obtain ⟨rfl, rfl⟩ := List.append_eq_nil_iff.1 hs
    have hi : isInert _ := hsemi ▸ (show isInert 0x3B from rfl)
    rw [List.cons_append, List.length_nil, findFrom_terminator hi hsemi,
      findFrom_terminator hi hsemi]
  | @opener whole cell other rest ho _ ih =>
    subst hs
    rw [List.cons_append, findFrom_opener (isOpener_of_closerOf ho).1,
      findFrom_opener (isOpener_of_closerOf ho).1]
    exact @ih (other :: inner) _ rfl
  | @closer whole cell rest hc _ ih =>
    cases inner with
    | nil =>
      rw [List.cons_append, List.length_nil, findFrom_outer hc, findFrom_outer hc]
    | cons other inner =>
      cases hs
      rw [List.cons_append, List.length_cons, findFrom_closer hc, findFrom_closer hc]
      exact ih rfl
  | @inert whole cell rest hi _ ih =>
    by_cases ht : cell.byte = 0x3B ∧ inner.length = 0
    · obtain ⟨hb, hl⟩ := ht
      rw [hl, List.cons_append, findFrom_terminator hi hb, findFrom_terminator hi hb]
    · rw [List.cons_append, findFrom_other hi ht, findFrom_other hi ht]
      exact ih hs

/-- The scan for starts goes on behind the text as at the beginning of one. -/
theorem restarts (h : Concludes stack cells) (right : List Cell) :
    Restarts stack cells right := by
  induction h with
  | @ending semicolon blanks hs hb =>
    intro pending position
    have hblanks (position : Nat) (rest : List Cell) :
        headsFrom .topLevel 0 0 true position (blanks ++ rest) =
          headsFrom .topLevel 0 0 true (position + blanks.length) rest := by
      refine headsFrom_inert (by decide) (fun cell hm => Slice.isInert_of_blank (hb cell hm)) ?_
      intro cell hm
      rw [hb cell hm]
      rfl
    have hnil := hblanks (position + 1) []
    rw [List.append_nil] at hnil
    have hlength : position + (semicolon :: blanks).length = position + 1 + blanks.length := by
      rw [List.length_cons]
      omega
    have hends (pending : Bool) : (endsStatement .topLevel 0 0 0x3B || pending) = true := rfl
    have hcounts : bracesAfter 0 0x3B = 0 ∧ parensAfter 0 0x3B = 0 := by decide
    rw [hlength, List.cons_append]
    simp only [List.count_nil, headsFrom, hs, hends, hcounts, hblanks, hnil]
    split <;> rfl
  | opener ho _ ih => exact .cons (due_opener ho _ []) ih
  | closer hc _ ih => exact .cons (due_closer hc _ []) ih
  | inert hi _ ih => exact .cons (due_other hi _ []) ih

end Concludes

theorem not_isBlank_semicolon {cell : Cell} (h : cell.byte = 0x3B) : cell.isBlank = false := by
  rw [Cell.isBlank, h]
  rfl

end Delimiter

open Delimiter (Concludes)

/-- A text that ends a statement and a line. -/
def IsConcluded (cells : List Cell) : Prop :=
  ∃ stack, Concludes stack cells

namespace IsConcluded

variable {cells left right : List Cell}

theorem of_append (h : IsConcluded (left ++ right)) (hr : ∃ cell ∈ right, cell.isBlank = false) :
    IsConcluded right := by
  obtain ⟨stack, h⟩ := h
  obtain ⟨stack', _, h⟩ := h.of_append hr
  exact ⟨stack', h⟩

theorem of_cons {cell : Cell} (h : IsConcluded (cell :: cells)) (hn : cell.byte ≠ 0x3B) :
    IsConcluded cells := by
  obtain ⟨stack, h⟩ := h
  cases h with
  | ending hs => exact absurd hs hn
  | opener _ h => exact ⟨_, h⟩
  | closer _ h => exact ⟨_, h⟩
  | inert _ h => exact ⟨_, h⟩

theorem exists_semicolon (h : IsConcluded cells) : ∃ cell ∈ cells, cell.byte = 0x3B := by
  obtain ⟨_, h⟩ := h
  exact h.exists_semicolon

theorem dropWhile {test : Cell → Bool} (h : IsConcluded cells)
    (ht : ∀ cell ∈ cells, test cell → cell.byte ≠ 0x3B) : IsConcluded (cells.dropWhile test) := by
  have hsplit := List.takeWhile_append_dropWhile (p := test) (l := cells)
  obtain ⟨cell, hm, hb⟩ := h.exists_semicolon
  rw [← hsplit] at h
  refine h.of_append ⟨cell, ?_, Delimiter.not_isBlank_semicolon hb⟩
  rw [← hsplit] at hm
  exact (List.mem_append.1 hm).resolve_left fun hm' =>
    ht cell (List.takeWhile_sublist test |>.subset hm') (List.mem_takeWhile_imp hm') hb

theorem ne_nil (h : IsConcluded cells) : cells ≠ [] := by
  obtain ⟨cell, hm, _⟩ := h.exists_semicolon
  exact List.ne_nil_of_mem hm

end IsConcluded

namespace Slice

variable {slice : Slice} {offset : Nat} {right : List Cell}

theorem append_fromOffset (hle : offset ≤ slice.stop) :
    (slice.append right).fromOffset offset = (slice.fromOffset offset).append right := by
  rw [stop] at hle
  simp only [append, fromOffset]
  rw [List.drop_append_of_le_length (by omega)]

theorem append_toOffset (hle : offset ≤ slice.stop) :
    (slice.append right).toOffset offset = slice.toOffset offset := by
  rw [stop] at hle
  simp only [append, toOffset, take]
  rw [List.take_append_of_le_length (by omega)]

theorem append_startsWith (h : slice.cells ≠ []) (c : Char) :
    (slice.append right).startsWith c = slice.startsWith c := by
  obtain ⟨start, cells⟩ := slice
  cases cells with
  | nil => exact absurd rfl h
  | cons => rfl

theorem append_drop_run {test : Cell → Bool} (h : slice.cells.dropWhile test ≠ []) :
    (slice.append right).drop ((slice.append right).run test) =
      (slice.drop (slice.run test)).append right := by
  have htake : (slice.cells ++ right).takeWhile test = slice.cells.takeWhile test := by
    rw [List.takeWhile_append]
    split
    · next hlength =>
      have hall := List.takeWhile_eq_self_iff.1
        ((List.takeWhile_prefix test).eq_of_length hlength)
      exact absurd (List.dropWhile_eq_nil_iff.2 hall) h
    · rfl
  simp only [append, run, drop, htake]
  rw [List.drop_append_of_le_length (length_takeWhile_le ..)]

end Slice

/-- A slice that ends a statement and a line. -/
def Slice.IsConcluded (slice : Slice) : Prop :=
  CodeOutline.IsConcluded slice.cells

namespace Slice.IsConcluded

variable {slice tail : Slice} {right : List Cell}

theorem of_isTail (h : slice.IsConcluded) (ht : IsTail tail slice)
    (hs : ∃ cell ∈ tail.cells, cell.isBlank = false) : tail.IsConcluded := by
  obtain ⟨before, hc, _⟩ := ht
  rw [Slice.IsConcluded, hc] at h
  exact CodeOutline.IsConcluded.of_append h hs

theorem drop_run (h : slice.IsConcluded) {test : Cell → Bool}
    (ht : ∀ cell ∈ slice.cells, test cell → cell.byte ≠ 0x3B) :
    (slice.drop (slice.run test)).IsConcluded ∧
      (slice.append right).drop ((slice.append right).run test) =
        (slice.drop (slice.run test)).append right := by
  have hdrop := h.dropWhile ht
  refine ⟨?_, append_drop_run hdrop.ne_nil⟩
  rw [Slice.IsConcluded, cells_drop_run]
  exact hdrop

theorem find?_append (h : slice.IsConcluded) (right : List Cell) :
    (slice.append right).find? 0x3B = slice.find? 0x3B := by
  obtain ⟨stack, h⟩ := h
  exact Concludes.findFrom_append (show Concludes ([] ++ stack) slice.cells from h) right

theorem drop_one (h : slice.IsConcluded) {c : Char} (hs : slice.startsWith c)
    (hc : c.val.toUInt8 ≠ 0x3B) (right : List Cell) :
    (slice.drop 1).IsConcluded ∧ (slice.append right).drop 1 = (slice.drop 1).append right := by
  obtain ⟨start, cells⟩ := slice
  cases cells with
  | nil => cases hs
  | cons cell cells =>
    have hb : cell.byte = c.val.toUInt8 := of_decide_eq_true hs
    exact ⟨CodeOutline.IsConcluded.of_cons h (hb ▸ hc), rfl⟩

theorem exists_block (h : slice.IsConcluded) {c : Char} (hs : slice.startsWith c)
    (ho : (Delimiter.closerOf c.val.toUInt8).isSome) :
    ∃ close inner after, slice.close? = some close ∧ slice.block? = some (inner, after) ∧
      after.IsConcluded ∧ ∀ right, (slice.append right).close? = some close ∧
        (slice.append right).block? = some (inner, after.append right) := by
  obtain ⟨start, cells⟩ := slice
  obtain ⟨stack, h⟩ := h
  cases cells with
  | nil => cases hs
  | cons opening cells =>
    have hb : opening.byte = c.val.toUInt8 := of_decide_eq_true hs
    rw [← hb] at ho
    obtain ⟨closer, hc⟩ := Option.isSome_iff_exists.1 ho
    cases h with
    | ending hsemi => rw [hsemi] at hc; cases hc
    | closer hx => rw [Delimiter.closerOf_of_isCloser hx] at hc; cases hc
    | inert hi => rw [Delimiter.closerOf_of_isInert hi] at hc; cases hc
    | @opener _ _ closer' _ ho h =>
      cases hc.symm.trans ho
      rw [← List.nil_append (_ :: stack)] at h
      obtain ⟨inner, closing, after, rfl, hn, rfl, ha⟩ := h.exists_closing
      refine ⟨start + 1 + inner.length, ⟨start + 1, inner⟩, ⟨start + 1 + inner.length + 1, after⟩,
        close?_nested ho hn, block?_nested ho hn, ⟨stack, ha⟩, fun right => ?_⟩
      simp only [append, List.cons_append, List.append_assoc]
      exact ⟨close?_nested ho hn, block?_nested ho hn⟩

end Slice.IsConcluded

end CodeOutline
