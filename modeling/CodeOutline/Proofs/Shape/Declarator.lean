import CodeOutline.Proofs.Text.Laid
import CodeOutline.Proofs.Text.Line

namespace CodeOutline

namespace Text

variable {rest front : List Char}

theorem trimLeft_of_head (h : ∀ c ∈ rest.head?, CharClass.isSpace c = false) :
    trimLeft rest = rest := by
  cases rest with
  | nil => rfl
  | cons c rest =>
    rw [trimLeft, List.dropWhile_cons_of_neg]
    simp [h c rfl]

theorem trimRight_append (h : ∀ c ∈ front.getLast?, CharClass.isSpace c = false) :
    trimRight (front ++ rest) = front ++ trimRight rest := by
  have hf : front.reverse.dropWhile CharClass.isSpace = front.reverse := by
    cases hr : front.reverse with
    | nil => rfl
    | cons c others =>
      rw [List.dropWhile_cons_of_neg]
      simp [h c (by rw [List.getLast?_eq_head?_reverse, hr]; rfl)]
  rw [trimRight, trimRight, List.reverse_append, List.dropWhile_append, hf]
  split
  · next he => simp [List.isEmpty_iff.1 he]
  · rw [List.reverse_append, List.reverse_reverse]

end Text

namespace Keyword

def isBreak (c : Char) : Bool :=
  !(CharClass.isAlphanumeric c || c = '_')

variable {word rest : List Char} {c : Char}

/-- A keyword is looked for in each word of a text. -/
theorem occursIn_word (h : ∀ c ∈ word, isBreak c = false) (hc : isBreak c) :
    occursIn (String.ofList (word ++ c :: rest)) =
      (isKeyword (String.ofList word) || occursIn (String.ofList rest)) := by
  have hp := Text.pieces_word rest h hc
  simp only [occursIn, String.toList_ofList]
  exact congrArg (List.any · _) hp

theorem occursIn_break (hc : isBreak c) :
    occursIn (String.ofList (c :: rest)) = occursIn (String.ofList rest) := by
  have h : occursIn (String.ofList ([] ++ c :: rest)) =
      (isKeyword (String.ofList []) || occursIn (String.ofList rest)) := occursIn_word (by simp) hc
  have hk : isKeyword (String.ofList []) = false := by decide
  simpa only [List.nil_append, hk, Bool.false_or] using h

theorem isBreak_of_isNameChar (h : CharClass.isNameChar c) : isBreak c = false := by
  simpa using CharClass.of_isNameChar (!isBreak ·) (by decide +kernel) h

end Keyword

namespace Declarator

open Cell (width layout)

variable {count start stop position : Nat} {word rest : List Char} {c : Char}

theorem readWords_cells {word : List Cell} (h : ∀ cell ∈ word, cell.within CharClass.isWord)
    (count start position : Nat) (rest : List Cell) :
    readWords count start none position (word ++ rest) =
      readWords count start none (position + word.length) rest := by
  induction word generalizing position with
  | nil => rfl
  | cons cell word ih =>
    obtain ⟨hc, hw⟩ := List.forall_mem_cons.1 h
    rw [List.cons_append, readWords.eq_def]
    simp only [hc, if_true]
    rw [ih hw, List.length_cons, Nat.add_assoc, Nat.add_comm 1]

theorem readWords_word (h : ∀ c ∈ word, CharClass.isWord c) :
    readWords count start none position (layout (word ++ rest)) =
      readWords count start none (position + width word) (layout rest) := by
  have hw : ∀ cell ∈ layout word, cell.within CharClass.isWord :=
    Cell.forall_mem_layout fun c hc _ hm => Cell.within_of_mem_ofChar hm (h c hc)
  rw [Cell.layout_append, width]
  exact readWords_cells hw ..

theorem readWords_separators (h : ∀ c ∈ word, isSeparator c) :
    readWords count start (some stop) position (layout (word ++ rest)) =
      readWords count start (some stop) (position + width word) (layout rest) := by
  have hw : ∀ cell ∈ layout word, cell.within isSeparator :=
    Cell.forall_mem_layout fun c hc _ hm => Cell.within_of_mem_ofChar hm (h c hc)
  rw [Cell.layout_append, width]
  generalize layout word = cells at hw ⊢
  induction cells generalizing position with
  | nil => rfl
  | cons cell cells ih =>
    rw [List.cons_append, readWords.eq_def]
    simp only [hw cell List.mem_cons_self, if_true,
      ih fun cell hm => hw cell (List.mem_cons_of_mem _ hm), List.length_cons, Nat.add_assoc, Nat.add_comm 1]

theorem readWords_separator (ha : c.toNat < 128) (hw : CharClass.isWord c = false)
    (hs : isSeparator c) :
    readWords count start none position (layout (c :: rest)) =
      readWords count start (some position) (position + 1) (layout rest) := by
  rw [Cell.layout_cons_ascii ha, readWords.eq_def]
  simp only [Cell.within, Cell.begins, Option.any_some, hw, hs, Bool.false_eq_true, if_false,
    if_true]

theorem readWords_next (h : CharClass.isWordStart c) (hs : isSeparator c = false) :
    readWords count start (some stop) position (layout (c :: rest)) =
      readWords (count + 1) position none (position + 1) (layout rest) := by
  have ha := CharClass.ascii_of_isNameChar (CharClass.isNameChar_of_isWordStart h)
  rw [Cell.layout_cons_ascii ha, readWords.eq_def]
  simp only [Cell.within, Cell.begins, Option.any_some, hs, h, Bool.false_eq_true, if_false,
    if_true]

/-- The run ends at what is neither a word nor a separator. -/
theorem readWords_end (stop : Option Nat) (hw : ∀ c ∈ rest.head?, CharClass.isWord c = false)
    (hs : ∀ c ∈ rest.head?, isSeparator c = false) :
    readWords count start stop position (layout rest) = (count, start, stop.getD position) := by
  cases h : layout rest with
  | nil => rfl
  | cons cell cells =>
    obtain ⟨c, hm, hc, _⟩ := Cell.head?_layout (congrArg List.head? h)
    have hstart : CharClass.isWordStart c = false := by
      rw [Bool.eq_false_iff]
      exact fun he => Bool.eq_false_iff.1 (hw c hm) (CharClass.isWord_of_isWordStart he)
    rw [readWords.eq_def]
    cases stop <;> simp only [Cell.within, Cell.begins, hc, Option.any_some, hw c hm, hs c hm,
      hstart, Bool.false_eq_true, if_false, Option.getD_none, Option.getD_some]

theorem readWords_start (count start : Nat) (stop : Option Nat) (position : Nat)
    (cells : List Cell) :
    (readWords count start stop position cells).1 = count ∧
        (readWords count start stop position cells).2.1 = start ∨
      position ≤ (readWords count start stop position cells).2.1 := by
  induction cells generalizing count start stop position with
  | nil => exact .inl ⟨rfl, rfl⟩
  | cons cell cells ih =>
    rw [readWords.eq_def]
    cases stop with
    | none =>
      simp only
      split
      · exact (ih _ _ _ (position + 1)).imp_right Nat.le_of_succ_le
      · split
        · exact (ih _ _ _ (position + 1)).imp_right Nat.le_of_succ_le
        · exact .inl ⟨rfl, rfl⟩
    | some stop =>
      simp only
      split
      · exact (ih _ _ _ (position + 1)).imp_right Nat.le_of_succ_le
      · split
        · right
          rcases ih (count + 1) position none (position + 1) with ⟨_, h⟩ | h
          · exact Nat.le_of_eq h.symm
          · exact Nat.le_of_succ_le h
        · exact .inl ⟨rfl, rfl⟩

theorem read?_words (hc : CharClass.isWordStart c)
    (h : readWords 1 position none (position + 1) (layout word) = (count, start, stop)) :
    read? (Slice.laid position (c :: word)) =
      if 2 ≤ count ∧ !Keyword.occursIn ((Slice.laid position (c :: word)).toOffset start).text ∧
          !Keyword.isKeyword (((Slice.laid position (c :: word)).fromOffset start).toOffset stop).text
      then some ⟨(Slice.laid position (c :: word)).toOffset start,
        ((Slice.laid position (c :: word)).fromOffset start).toOffset stop,
        (Slice.laid position (c :: word)).fromOffset stop⟩
      else none := by
  have ha := CharClass.ascii_of_isNameChar (CharClass.isNameChar_of_isWordStart hc)
  have hl : Slice.laid position (c :: word) =
      ⟨position, ⟨c.val.toUInt8, some c⟩ :: layout word⟩ := by
    rw [Slice.laid, Cell.layout_cons_ascii ha]
  rw [hl, read?]
  simp only [Cell.begins, Option.any_some, hc, if_true, h]

theorem read?_single {d : Char} {gaps : List Char} (hc : CharClass.isWordStart c)
    (hw : ∀ c ∈ word, CharClass.isWord c)
    (hg : ∀ c ∈ gaps, c.toNat < 128 ∧ CharClass.isWord c = false ∧ isSeparator c)
    (hd : CharClass.isWord d = false) (hs : isSeparator d = false) :
    read? (Slice.laid position (c :: (word ++ (gaps ++ d :: rest)))) = none := by
  have h : ∃ start stop, readWords 1 position none (position + 1)
      (layout (word ++ (gaps ++ d :: rest))) = (1, start, stop) := by
    rw [readWords_word hw]
    cases gaps with
    | nil => exact ⟨_, _, readWords_end none (by simpa using hd) (by simpa using hs)⟩
    | cons g gaps =>
      obtain ⟨hga, hgw, hgs⟩ := hg g List.mem_cons_self
      rw [List.cons_append, readWords_separator hga hgw hgs,
        readWords_separators fun c hm => (hg c (List.mem_cons_of_mem _ hm)).2.2]
      exact ⟨_, _, readWords_end (some _) (by simpa using hd) (by simpa using hs)⟩
  obtain ⟨start, stop, h⟩ := h
  rw [read?_words hc h, if_neg]
  simp

end Declarator

end CodeOutline
