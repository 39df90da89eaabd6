import CodeOutline.Proofs.Text.Shown

namespace CodeOutline

open Cell (width layout)

/-- A text reads a word at an offset: an identifier begins there, and the word is all of it. -/
def ReadsWord (text : String) (offset : Nat) (word : String) : Prop :=
  ∃ before rest : String, text = before ++ rest ∧ before.utf8ByteSize = offset ∧
    rest.toList.head?.any CharClass.isWordStart ∧
    rest.toList.takeWhile CharClass.isWord = word.toList

namespace Mask

variable {mode : Mode} {chars front rest : List Char} {c : Char}

theorem not_isWord_of_mem_blank {d : Char} (h : d ∈ blank c) : CharClass.isWord d = false := by
  rw [blank] at h
  split at h
  · rw [List.mem_singleton.1 h]
    decide
  · rw [List.eq_of_mem_replicate h]
    decide

theorem ne_of_isWord {d : Char} (hw : CharClass.isWord c) (hd : CharClass.isWord d = false) :
    c ≠ d := by
  rintro rfl
  exact Bool.false_ne_true (hd.symm.trans hw)

theorem not_isQuote_of_isWord (hw : CharClass.isWord c) : ¬IsQuote c := by
  rintro (h | h | h)
  · exact ne_of_isWord hw (by decide) h
  · exact ne_of_isWord hw (by decide) h
  · exact ne_of_isWord hw (by decide) h

theorem step_code_word (hw : CharClass.isWord c) (lineStart : Bool) (next : Option Char) :
    ∃ lineStart', (Mode.code lineStart).step c next = (.code lineStart', true) := by
  have hslash : c ≠ '/' := ne_of_isWord hw (by decide)
  have hhash : c ≠ '#' := ne_of_isWord hw (by decide)
  have hquote : ¬(c = '"' ∨ c = '\'' ∨ c = '\x60') := not_isQuote_of_isWord hw
  refine ⟨c = '\n' || (CharClass.isSpace c && lineStart), ?_⟩
  simp only [Mode.step, hslash, hhash, hquote, false_and, if_false]

theorem step_word (hr : mode.Ready (some c)) (hw : CharClass.isWord c) {next : Option Char}
    (hk : (mode.step c next).2 = true) : ∃ lineStart, (mode.step c next).1 = .code lineStart := by
  have hbreak : c ≠ '\n' := ne_of_isWord hw (by decide)
  cases mode with
  | code lineStart =>
    obtain ⟨lineStart', hs⟩ := step_code_word hw lineStart next
    exact ⟨lineStart', by rw [hs]⟩
  | literal quote =>
    have hne : c ≠ quote := by
      rintro rfl
      exact not_isQuote_of_isWord hw hr
    simp only [Mode.step, hne, hbreak, false_and, if_false] at hk
    split at hk <;> cases hk
  | commentOpening | commentClosing | escape | continuation => cases hk
  | lineComment | blockComment =>
    simp only [Mode.step] at hk
    split at hk <;> cases hk
  | directive =>
    simp only [Mode.step, hbreak, if_false] at hk
    split at hk <;> cases hk

theorem takeWhile_blank (c : Char) (rest : List Char) :
    (blank c ++ rest).takeWhile CharClass.isWord = [] := by
  obtain ⟨d, others, hb⟩ : ∃ d others, blank c = d :: others := by
    refine List.exists_cons_of_ne_nil fun hb => ?_
    have hwidth := width_blank c
    rw [hb, Cell.width_nil] at hwidth
    exact absurd hwidth.symm c.utf8Size_pos.ne'
  have hd : CharClass.isWord d = false :=
    not_isWord_of_mem_blank (c := c) (hb ▸ List.mem_cons_self)
  rw [hb, List.cons_append, List.takeWhile_cons_of_neg (by rw [hd]; exact Bool.false_ne_true)]

/-- In program text a word is kept as it is and to its end. -/
theorem takeWhile_runFrom (lineStart : Bool) (chars : List Char) :
    (runFrom (.code lineStart) chars).takeWhile CharClass.isWord =
      chars.takeWhile CharClass.isWord := by
  induction chars generalizing lineStart with
  | nil => rfl
  | cons c rest ih =>
    rw [runFrom_cons]
    by_cases hw : CharClass.isWord c
    · obtain ⟨lineStart', hs⟩ := step_code_word hw lineStart rest.head?
      rw [hs, if_pos rfl, List.singleton_append, List.takeWhile_cons_of_pos hw,
        List.takeWhile_cons_of_pos hw, ih]
    · rw [List.takeWhile_cons_of_neg hw]
      split
      · exact List.takeWhile_cons_of_neg hw
      · exact takeWhile_blank c _

theorem width_step (mode : Mode) (c : Char) (next : Option Char) :
    width (if (mode.step c next).2 then [c] else blank c) = (Cell.ofChar c).length := by
  split
  · rw [Cell.width_cons, Cell.width_nil, Nat.add_zero]
  · rw [width_blank, Cell.ofChar_length]

/-- A word of a masked text is a word of the text at the same offset. -/
theorem exists_word (hr : mode.Ready chars.head?) (hw : CharClass.isWord c)
    (h : runFrom mode chars = front ++ c :: rest) :
    ∃ before after, chars = before ++ c :: after ∧ width before = width front ∧
      after.takeWhile CharClass.isWord = rest.takeWhile CharClass.isWord := by
  induction chars generalizing mode front with
  | nil => exact absurd (congrArg List.length h) (by simp [runFrom])
  | cons d chars ih =>
    rw [runFrom_cons] at h
    have hwidth := width_step mode d chars.head?
    have hkept : (mode.step d chars.head?).2 = false →
        c ∉ (if (mode.step d chars.head?).2 then [d] else blank d) := by
      intro hk hm
      rw [hk, if_neg Bool.false_ne_true] at hm
      exact Bool.false_ne_true ((not_isWord_of_mem_blank hm).symm.trans hw)
    have hlater {middle : List Char}
        (h : runFrom (mode.step d chars.head?).1 chars = middle ++ c :: rest) :
        ∃ before after, d :: chars = before ++ c :: after ∧
          width before = (Cell.ofChar d).length + width middle ∧
          after.takeWhile CharClass.isWord = rest.takeWhile CharClass.isWord := by
      obtain ⟨before, after, he, hb, ha⟩ := ih (hr.step _) h
      exact ⟨d :: before, after, by rw [he, List.cons_append], by rw [Cell.width_cons, hb], ha⟩
    rcases List.append_eq_append_iff.1 h with ⟨middle, rfl, hm⟩ | ⟨middle, hp, hm⟩
    · rw [Cell.width_append, hwidth]
      exact hlater hm
    · cases middle with
      | nil =>
        rw [hp, List.append_nil] at hwidth
        rw [hwidth, ← Nat.add_zero (Cell.ofChar d).length]
        exact @hlater [] hm.symm
      | cons e middle =>
        obtain ⟨rfl, hrest⟩ := List.cons.inj hm
        have hk : (mode.step d chars.head?).2 = true := by
          rw [← Bool.not_eq_false]
          intro hk
          exact hkept hk (hp ▸ List.mem_append_right front List.mem_cons_self)
        rw [hk, if_pos rfl, List.singleton_eq_append_iff] at hp
        rcases hp with ⟨rfl, hp⟩ | ⟨_, hp⟩
        · obtain ⟨rfl, rfl⟩ := List.cons.inj hp
          obtain ⟨lineStart, hs⟩ := step_word hr hw hk
          refine ⟨[], chars, rfl, rfl, ?_⟩
          rw [hrest, hs]
          exact (takeWhile_runFrom lineStart chars).symm
        · cases hp

end Mask

theorem ReadsWord.of_maskText {text word : String} {offset : Nat}
    (h : ReadsWord (maskText text) offset word) : ReadsWord text offset word := by
  obtain ⟨front, rest, ht, ho, hs, hw⟩ := h
  obtain ⟨c, hc, hs⟩ := (Option.any_eq_true _ _).1 hs
  obtain ⟨others, hr⟩ := List.head?_eq_some_iff.1 hc
  have hword : CharClass.isWord c := CharClass.isWord_of_isWordStart hs
  have hchars : Mask.runFrom (.code true) text.toList = front.toList ++ c :: others := by
    rw [← hr, ← String.toList_append, ← ht, maskText, String.toList_ofList, Mask.chars]
  obtain ⟨before, after, he, hb, ha⟩ :=
    Mask.exists_word (Mask.ready_code true _) hword hchars
  refine ⟨String.ofList before, String.ofList (c :: after), ?_, ?_, ?_, ?_⟩
  · rw [← String.ofList_append, ← he, String.ofList_toList]
  · rw [← Cell.width_toList, String.toList_ofList, hb, Cell.width_toList, ho]
  · rw [String.toList_ofList]
    exact hs
  · rw [String.toList_ofList, ← hw, hr, List.takeWhile_cons_of_pos hword,
      List.takeWhile_cons_of_pos hword, ha]

theorem Cell.takeWhile_layout (cls : Char → Bool) (chars : List Char) :
    (layout chars).takeWhile (Cell.within cls) = layout (chars.takeWhile cls) := by
  induction chars with
  | nil => rfl
  | cons c rest ih =>
    rw [layout_cons]
    by_cases hc : cls c
    · have hall : ∀ cell ∈ ofChar c, cell.within cls := fun cell hm => within_of_mem_ofChar hm hc
      rw [List.takeWhile_append_of_pos hall, ih, List.takeWhile_cons_of_pos hc, layout_cons]
    · obtain ⟨byte, others, ho, _⟩ := ofChar_eq_cons c
      rw [List.takeWhile_cons_of_neg hc, ho]
      exact List.takeWhile_cons_of_neg hc

namespace Slice

variable {name slice text : Slice} {offset : Nat}

/-- At an offset of a slice stands a character that belongs to no word. -/
def BreaksAt (slice : Slice) (offset : Nat) : Prop :=
  ∃ cell rest, IsTail ⟨offset, cell :: rest⟩ slice ∧ cell.within CharClass.isWord = false

/-- An identifier in a slice, cut out to its end. -/
structure IsIdentifier (name slice : Slice) : Prop where
  part : IsPart name slice
  start : name.cells.head?.any (Cell.begins CharClass.isWordStart)
  within : ∀ cell ∈ name.cells, cell.within CharClass.isWord
  stop : slice.BreaksAt name.stop

theorem BreaksAt.of_isPart (h : slice.BreaksAt offset) (hp : IsPart slice text) :
    text.BreaksAt offset := by
  obtain ⟨cell, rest, ⟨front, hc, hs⟩, hb⟩ := h
  obtain ⟨before, after, ht, hstart⟩ := hp
  refine ⟨cell, rest ++ after, ⟨before ++ front, ?_, ?_⟩, hb⟩
  · rw [ht, hc]
    simp
  · rw [List.length_append, ← Nat.add_assoc, ← hstart]
    exact hs

theorem IsIdentifier.of_isPart (h : name.IsIdentifier slice) (hp : IsPart slice text) :
    name.IsIdentifier text :=
  ⟨h.part.trans hp, h.start, h.within, h.stop.of_isPart hp⟩

theorem IsIdentifier.readsWord {chars : List Char} (h : name.IsIdentifier (laid 0 chars)) :
    ReadsWord (String.ofList chars) name.start name.text := by
  obtain ⟨before, after, hc, hs⟩ := h.part
  obtain ⟨cell, rest, ⟨front, hf, hstop⟩, hb⟩ := h.stop
  obtain ⟨first, hfirst, hletter⟩ := (Option.any_eq_true _ _).1 h.start
  rw [laid_start, Nat.zero_add] at hs hstop
  have hcells : layout chars = before ++ (name.cells ++ after) := hc
  have hlength : (before ++ name.cells).length = front.length := by
    rw [List.length_append, ← hs]
    exact hstop
  have hafter : after = cell :: rest := by
    rw [← List.append_assoc] at hc
    exact (List.append_inj (hc.symm.trans hf) hlength).2
  have hhead : (name.cells ++ after).head? = some first := by
    rw [List.head?_append, hfirst, Option.some_or]
  have hboundary : Cell.isBoundary (layout chars) before.length := by
    rw [hcells, Cell.isBoundary_append]
    intro other ho
    rw [hhead] at ho
    cases ho
    exact Option.isSome_of_any hletter
  obtain ⟨left, right, rfl, hw⟩ := Cell.exists_of_isBoundary hboundary
  have hright : layout right = name.cells ++ after := by
    rw [Cell.layout_append] at hcells
    exact (List.append_inj hcells hw).2
  have hword : layout (right.takeWhile CharClass.isWord) = name.cells := by
    rw [← Cell.takeWhile_layout, hright, hafter]
    exact takeWhile_append_of_all h.within fun other ho => Option.some.inj ho ▸ hb
  obtain ⟨c, hm, hchar, _⟩ := Cell.head?_layout (hright ▸ hhead)
  refine ⟨String.ofList left, String.ofList right, String.ofList_append, ?_, ?_, ?_⟩
  · rw [← Cell.width_toList, String.toList_ofList, hw, hs]
  · rw [Cell.begins, hchar] at hletter
    rw [String.toList_ofList, hm]
    exact hletter
  · rw [String.toList_ofList, Slice.text, ← hword, Cell.text, Cell.chars_layout,
      String.toList_ofList]

end Slice

end CodeOutline
