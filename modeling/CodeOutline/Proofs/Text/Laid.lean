import CodeOutline.Proofs.Text.Layout
import CodeOutline.Proofs.Text.Slice
import CodeOutline.Shape.Declarator

namespace CodeOutline

namespace CharClass

/-- The characters whose byte is blank. -/
def isAsciiSpace (c : Char) : Bool :=
  [' ', '\t', '\n', '\x0c', '\r'].contains c

/-- What an ASCII identifier goes on with. -/
def isNameChar (c : Char) : Bool :=
  c.isAlphanum || c = '_'

theorem forall_ascii (test : Char → Bool) (h : ∀ code < 128, test (Char.ofNat code)) {c : Char}
    (hc : c.toNat < 128) : test c := by
  have ht := h c.toNat hc
  rwa [Char.ofNat_toNat] at ht

theorem ascii_of_isNameChar {c : Char} (h : isNameChar c) : c.toNat < 128 := by
  have hn : (c.isUpper || c.isLower || c.isDigit || decide (c = '_')) = true := h
  simp only [Bool.or_eq_true, decide_eq_true_eq] at hn
  rcases hn with ((hn | hn) | hn) | rfl
  · have hb : c.toNat ≤ 90 := (of_decide_eq_true hn).2
    omega
  · have hb : c.toNat ≤ 122 := of_decide_eq_true (Bool.and_eq_true_iff.1 hn).2
    omega
  · have hb : c.toNat ≤ 57 := of_decide_eq_true (Bool.and_eq_true_iff.1 hn).2
    omega
  · decide

theorem of_isNameChar (test : Char → Bool)
    (h : ∀ code < 128, !isNameChar (Char.ofNat code) || test (Char.ofNat code)) {c : Char}
    (hc : isNameChar c) : test c := by
  have ht := forall_ascii (fun c => !isNameChar c || test c) h (ascii_of_isNameChar hc)
  simpa [hc] using ht

theorem isWord_of_isNameChar {c : Char} (h : isNameChar c) : isWord c :=
  of_isNameChar isWord (by decide +kernel) h

theorem isAsciiSpace_of_isNameChar {c : Char} (h : isNameChar c) : isAsciiSpace c = false := by
  simpa using of_isNameChar (!isAsciiSpace ·) (by decide +kernel) h

theorem isNameChar_of_isWordStart {c : Char} (h : isWordStart c) : isNameChar c := by
  simp only [isWordStart, Bool.or_eq_true, decide_eq_true_eq] at h
  simp only [isNameChar, Char.isAlphanum, Bool.or_eq_true, decide_eq_true_eq]
  rcases h with h | h
  · exact .inl (.inl h)
  · exact .inr h

theorem isWord_of_isWordStart {c : Char} (h : isWordStart c) : isWord c :=
  isWord_of_isNameChar (isNameChar_of_isWordStart h)

/-- A word as identifiers and keywords are. -/
def IsName (word : List Char) : Prop :=
  ∃ c rest, word = c :: rest ∧ isWordStart c ∧ ∀ d ∈ rest, isNameChar d

theorem IsName.isNameChar {word : List Char} (h : IsName word) {c : Char} (hc : c ∈ word) :
    isNameChar c := by
  obtain ⟨d, rest, rfl, hd, hr⟩ := h
  rcases List.mem_cons.1 hc with rfl | hm
  · exact isNameChar_of_isWordStart hd
  · exact hr c hm

theorem isSpace_of_isAsciiSpace {c : Char} (h : isAsciiSpace c) : isSpace c := by
  simp only [isAsciiSpace, List.contains_eq_mem, decide_eq_true_eq, List.mem_cons,
    List.not_mem_nil, or_false] at h
  rcases h with rfl | rfl | rfl | rfl | rfl <;> rfl

theorem not_isWord_of_isAsciiSpace {c : Char} (h : isAsciiSpace c) : isWord c = false := by
  simp only [isAsciiSpace, List.contains_eq_mem, decide_eq_true_eq, List.mem_cons,
    List.not_mem_nil, or_false] at h
  rcases h with rfl | rfl | rfl | rfl | rfl <;> decide

end CharClass

namespace Cell

/-- The number of bytes of a text. -/
def width (chars : List Char) : Nat :=
  (layout chars).length

@[simp] theorem width_nil : width [] = 0 := rfl

@[simp] theorem width_append (left right : List Char) :
    width (left ++ right) = width left + width right := by
  rw [width, layout_append, List.length_append]
  rfl

theorem width_cons (c : Char) (rest : List Char) :
    width (c :: rest) = (ofChar c).length + width rest := by
  rw [width, layout_cons, List.length_append]
  rfl

@[simp] theorem width_cons_ascii {c : Char} (h : c.toNat < 128) (rest : List Char) :
    width (c :: rest) = 1 + width rest := by
  rw [width_cons, ofChar_ascii h]
  rfl

theorem layout_cons_ascii {c : Char} (h : c.toNat < 128) (rest : List Char) :
    layout (c :: rest) = ⟨c.val.toUInt8, some c⟩ :: layout rest := by
  rw [layout_cons, ofChar_ascii h]
  rfl

theorem width_toList (text : String) : width text.toList = text.utf8ByteSize := by
  have h (chars : List Char) : width chars = (String.ofList chars).utf8ByteSize := by
    induction chars with
    | nil => rfl
    | cons c rest ih =>
      rw [width_cons, ih, ← List.singleton_append, String.ofList_append, String.utf8ByteSize_append,
        ← String.singleton_eq_ofList, String.utf8ByteSize_singleton, ofChar_length]
  rw [h, String.ofList_toList]

theorem layout_ne_nil {chars : List Char} (h : chars ≠ []) : layout chars ≠ [] := by
  cases chars with
  | nil => exact absurd rfl h
  | cons c rest =>
    obtain ⟨byte, others, ho, _⟩ := ofChar_eq_cons c
    rw [layout_cons, ho]
    exact List.cons_ne_nil _ _

theorem head?_layout {chars : List Char} {cell : Cell} (h : (layout chars).head? = some cell) :
    ∃ c ∈ chars.head?, cell.char? = some c ∧ cell ∈ ofChar c := by
  cases chars with
  | nil => cases h
  | cons c rest =>
    obtain ⟨byte, others, ho, _⟩ := ofChar_eq_cons c
    rw [layout_cons, ho] at h
    cases h
    exact ⟨c, rfl, rfl, by rw [ho]; exact List.mem_cons_self⟩

theorem getLast?_layout {chars : List Char} {cell : Cell}
    (h : (layout chars).getLast? = some cell) : ∃ c ∈ chars.getLast?, cell ∈ ofChar c := by
  rcases List.eq_nil_or_concat chars with rfl | ⟨front, c, rfl⟩
  · cases h
  · obtain ⟨byte, others, ho, _⟩ := ofChar_eq_cons c
    have hc : layout [c] = ofChar c := List.append_nil _
    refine ⟨c, by simp, ?_⟩
    rw [List.concat_eq_append, layout_append, hc, List.getLast?_append, Option.or_eq_some_iff] at h
    rcases h with h | ⟨h, _⟩
    · exact List.mem_of_getLast? h
    · rw [ho] at h
      cases List.getLast?_eq_none_iff.1 h

theorem within_of_mem_ofChar {c : Char} {cell : Cell} {cls : Char → Bool} (h : cell ∈ ofChar c)
    (hc : cls c) : cell.within cls := by
  obtain ⟨byte, others, ho, _⟩ := ofChar_eq_cons c
  rw [ho, List.mem_cons, List.mem_map] at h
  rcases h with rfl | ⟨other, _, rfl⟩
  · exact hc
  · rfl

theorem isAscii_of_mem_ofChar {c d : Char} {cell : Cell} (h : cell ∈ ofChar c)
    (hd : d.toNat < 128) (hne : c ≠ d) : cell.isAscii d = false :=
  decide_eq_false fun he => hne (eq_of_byte_eq h hd he)

theorem isBlank_of_mem_ofChar {c : Char} {cell : Cell} (h : cell ∈ ofChar c) :
    cell.isBlank = CharClass.isAsciiSpace c := by
  cases hs : CharClass.isAsciiSpace c with
  | true =>
    simp only [CharClass.isAsciiSpace, List.contains_eq_mem, decide_eq_true_eq, List.mem_cons,
      List.not_mem_nil, or_false] at hs
    rcases hs with rfl | rfl | rfl | rfl | rfl <;>
      (rw [ofChar_ascii (by decide), List.mem_singleton] at h; subst h; rfl)
  | false =>
    simp only [CharClass.isAsciiSpace, List.contains_eq_mem, decide_eq_false_iff_not,
      List.mem_cons, List.not_mem_nil, or_false, not_or] at hs
    obtain ⟨h1, h2, h3, h4, h5⟩ := hs
    simp only [isBlank, CharClass.isBlank, Bool.or_eq_false_iff, decide_eq_false_iff_not]
    exact ⟨⟨⟨⟨fun he => h1 (eq_of_byte_eq h (by decide) he),
      fun he => h2 (eq_of_byte_eq h (by decide) he)⟩,
      fun he => h3 (eq_of_byte_eq h (by decide) he)⟩,
      fun he => h4 (eq_of_byte_eq h (by decide) he)⟩,
      fun he => h5 (eq_of_byte_eq h (by decide) he)⟩

theorem isBlank_of_mem_layout {chars : List Char} (h : ∀ c ∈ chars, CharClass.isAsciiSpace c) :
    ∀ cell ∈ layout chars, cell.isBlank :=
  forall_mem_layout fun c hc _ hm => (isBlank_of_mem_ofChar hm).trans (h c hc)

theorem IsFaithful.exists_of_isBlank {cell : Cell} (hf : cell.IsFaithful) (h : cell.isBlank) :
    ∃ c, cell.char? = some c ∧ CharClass.isAsciiSpace c := by
  have hblank (c : Char) (hs : CharClass.isAsciiSpace c) (hc : c.toNat < 128)
      (hb : cell.byte = c.val.toUInt8) : ∃ c, cell.char? = some c ∧ CharClass.isAsciiSpace c :=
    ⟨c, hf c hc (decide_eq_true hb), hs⟩
  simp only [isBlank, CharClass.isBlank, Bool.or_eq_true, decide_eq_true_eq] at h
  rcases h with (((h | h) | h) | h) | h
  · exact hblank ' ' rfl (by decide) h
  · exact hblank '\t' rfl (by decide) h
  · exact hblank '\n' rfl (by decide) h
  · exact hblank '\x0c' rfl (by decide) h
  · exact hblank '\r' rfl (by decide) h

theorem isWord_of_begins {cell : Cell} (h : cell.begins CharClass.isWordStart) :
    cell.within CharClass.isWord :=
  within_mono (fun _ => CharClass.isWord_of_isWordStart) (within_of_begins h)

end Cell

namespace Slice

/-- The slice of the given characters. -/
def laid (position : Nat) (chars : List Char) : Slice :=
  ⟨position, Cell.layout chars⟩

open Cell (width)

variable {position : Nat} {left middle right : List Char}

@[simp] theorem laid_start (position : Nat) (chars : List Char) :
    (laid position chars).start = position :=
  rfl

@[simp] theorem laid_text (position : Nat) (chars : List Char) :
    (laid position chars).text = String.ofList chars :=
  Cell.text_layout chars

@[simp] theorem laid_stop (position : Nat) (chars : List Char) :
    (laid position chars).stop = position + width chars :=
  rfl

theorem isEmpty_laid (h : left ≠ []) : (laid position left).isEmpty = false := by
  rw [isEmpty, laid]
  exact List.isEmpty_eq_false_iff.2 (Cell.layout_ne_nil h)

theorem drop_laid : (laid position (left ++ right)).drop (width left) =
    laid (position + width left) right := by
  rw [laid, Cell.layout_append, width, drop_append]
  rfl

theorem fromOffset_laid : (laid position (left ++ right)).fromOffset (position + width left) =
    laid (position + width left) right := by
  rw [laid, Cell.layout_append, width, fromOffset_append]
  rfl

theorem toOffset_laid : (laid position (left ++ right)).toOffset (position + width left) =
    laid position left := by
  rw [laid, Cell.layout_append, width, toOffset_append]
  rfl

theorem drop_one_laid {c : Char} (h : c.toNat < 128) :
    (laid position (c :: right)).drop 1 = laid (position + 1) right := by
  rw [laid, Cell.layout_cons_ascii h]
  rfl

theorem skipBlank_laid (h : ∀ c ∈ left, CharClass.isAsciiSpace c)
    (hr : ∀ c ∈ right.head?, CharClass.isAsciiSpace c = false) :
    (laid position (left ++ right)).skipBlank = laid (position + width left) right := by
  rw [laid, Cell.layout_append, skipBlank_append (Cell.isBlank_of_mem_layout h)]
  · rfl
  · intro cell hc
    obtain ⟨c, hm, _, hb⟩ := Cell.head?_layout hc
    rw [Cell.isBlank_of_mem_ofChar hb, hr c hm]

theorem skipSpace_laid (h : ∀ c ∈ left, CharClass.isSpace c)
    (hr : ∀ c ∈ right.head?, CharClass.isSpace c = false) :
    (laid position (left ++ right)).skipSpace = laid (position + width left) right := by
  rw [laid, Cell.layout_append, skipSpace_append]
  · rfl
  · exact Cell.forall_mem_layout fun c hc _ hm => Cell.within_of_mem_ofChar hm (h c hc)
  · intro cell hc
    obtain ⟨c, hm, hs, _⟩ := Cell.head?_layout hc
    simp only [Cell.within, hs, hr c hm]

theorem startsWith_laid {c : Char} (h : c.toNat < 128) :
    (laid position (c :: right)).startsWith c = true := by
  rw [laid, Cell.layout_cons_ascii h, startsWith_cons]
  exact decide_eq_true rfl

theorem not_startsWith_laid {d : Char} (hd : d.toNat < 128) (h : ∀ c ∈ right.head?, c ≠ d) :
    (laid position right).startsWith d = false := by
  cases hc : (Cell.layout right).head? with
  | none => rw [laid, startsWith, hc]; rfl
  | some cell =>
    obtain ⟨c, hm, _, hb⟩ := Cell.head?_layout hc
    rw [laid, startsWith, hc]
    exact Cell.isAscii_of_mem_ofChar hb hd (h c hm)

theorem trim_laid_of_space (h : ∀ c ∈ left, CharClass.isAsciiSpace c) :
    (laid position left).trim = laid (position + width left) [] :=
  trim_of_blank (Cell.isBlank_of_mem_layout h)

theorem trim_laid (hl : ∀ c ∈ left, CharClass.isAsciiSpace c)
    (hr : ∀ c ∈ right, CharClass.isAsciiSpace c)
    (hh : ∀ c ∈ middle.head?, CharClass.isAsciiSpace c = false)
    (ht : ∀ c ∈ middle.getLast?, CharClass.isAsciiSpace c = false) (hm : middle ≠ []) :
    (laid position (left ++ (middle ++ right))).trim = laid (position + width left) middle := by
  rw [laid, Cell.layout_append, Cell.layout_append, trim_append (Cell.isBlank_of_mem_layout hl)
    (Cell.isBlank_of_mem_layout hr) _ _ (Cell.layout_ne_nil hm)]
  · rfl
  · intro cell hc
    obtain ⟨c, hm, _, hb⟩ := Cell.head?_layout hc
    rw [Cell.isBlank_of_mem_ofChar hb, hh c hm]
  · intro cell hc
    obtain ⟨c, hm, hb⟩ := Cell.getLast?_layout hc
    rw [Cell.isBlank_of_mem_ofChar hb, ht c hm]

theorem word?_laid {cls : Char → Bool} {c : Char} {word : List Char}
    (hc : CharClass.isWordStart c) (hw : ∀ d ∈ word, cls d)
    (hr : ∀ d ∈ right.head?, cls d = false) :
    (laid position (c :: (word ++ right))).word? cls =
      some (laid position (c :: word), laid (position + width (c :: word)) right) := by
  have ha := CharClass.ascii_of_isNameChar (CharClass.isNameChar_of_isWordStart hc)
  have ht : (Cell.layout word ++ Cell.layout right).takeWhile (Cell.within cls) =
      Cell.layout word := by
    apply takeWhile_append_of_all
    · exact Cell.forall_mem_layout fun d hd _ hm => Cell.within_of_mem_ofChar hm (hw d hd)
    · intro cell hcell
      obtain ⟨d, hd, hs, _⟩ := Cell.head?_layout hcell
      simp only [Cell.within, hs, hr d hd]
  have hl : 1 + (Cell.layout word).length = width (c :: word) :=
    (Cell.width_cons_ascii ha word).symm
  have hd : (laid position (c :: word ++ right)).drop (width (c :: word)) =
      laid (position + width (c :: word)) right := drop_laid
  have htake : (laid position (c :: word ++ right)).take (width (c :: word)) =
      laid position (c :: word) := by
    rw [laid, Cell.layout_append, width, take, List.take_left]
    rfl
  rw [← hd, ← htake]
  simp only [laid, List.cons_append, Cell.layout_cons_ascii ha, Cell.layout_append, word?,
    Cell.begins, Option.any_some, hc, if_true, ht, hl]

theorem word?_name {cls : Char → Bool} {word : List Char} (h : CharClass.IsName word)
    (hw : ∀ d, CharClass.isNameChar d → cls d) (hr : ∀ d ∈ right.head?, cls d = false) :
    (laid position (word ++ right)).word? cls =
      some (laid position word, laid (position + width word) right) := by
  obtain ⟨c, rest, rfl, hc, hn⟩ := h
  exact word?_laid hc (fun d hd => hw d (hn d hd)) hr

theorem word?_laid_none {cls : Char → Bool}
    (h : ∀ c ∈ left.head?, CharClass.isWordStart c = false) :
    (laid position left).word? cls = none := by
  cases hc : Cell.layout left with
  | nil => rw [laid, hc]; rfl
  | cons cell rest =>
    obtain ⟨c, hm, hs, _⟩ := Cell.head?_layout (congrArg List.head? hc)
    simp only [laid, hc, word?, Cell.begins, hs, Option.any_some, h c hm, Bool.false_eq_true,
      if_false]

end Slice

end CodeOutline
