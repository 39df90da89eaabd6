import CodeOutline.Proofs.Delimiter.Heads
import CodeOutline.Proofs.Text.Laid

namespace CodeOutline

namespace Delimiter

/-- A bracket, a comma or a semicolon. -/
def isMark (c : Char) : Bool :=
  ['(', ')', '[', ']', '{', '}', ',', ';'].contains c

def IsPlain (chars : List Char) : Prop :=
  ∀ c ∈ chars, isMark c = false

instance (chars : List Char) : Decidable (IsPlain chars) :=
  inferInstanceAs (Decidable (∀ c ∈ chars, isMark c = false))

variable {left right inner : List Char} {boundaries : Boundaries} {pending : Bool}
  {braces parens depth position : Nat} {terminator : UInt8}

theorem isMark_of_isNameChar {c : Char} (h : CharClass.isNameChar c) : isMark c = false := by
  simpa using CharClass.of_isNameChar (!isMark ·) (by decide +kernel) h

theorem isPlain_nil : IsPlain [] := by
  intro c hc
  cases hc

theorem isPlain_of_isName (h : CharClass.IsName left) : IsPlain left :=
  fun _ hc => isMark_of_isNameChar (h.isNameChar hc)

theorem IsPlain.append (hl : IsPlain left) (hr : IsPlain right) : IsPlain (left ++ right) := by
  intro c hc
  rcases List.mem_append.1 hc with hc | hc
  · exact hl c hc
  · exact hr c hc

theorem IsPlain.cons {c : Char} (hc : isMark c = false) (hr : IsPlain right) :
    IsPlain (c :: right) := by
  intro d hd
  rcases List.mem_cons.1 hd with rfl | hd
  · exact hc
  · exact hr d hd

theorem byte_of_not_isMark {c : Char} {cell : Cell} (hc : isMark c = false)
    (h : cell ∈ Cell.ofChar c) : isInert cell.byte ∧ cell.byte ≠ 0x3B ∧ cell.byte ≠ 0x2C := by
  have hne {d : Char} (hd : d.toNat < 128) (hm : isMark d) : cell.byte ≠ d.val.toUInt8 := by
    intro he
    rw [Cell.eq_of_byte_eq h hd he, hm] at hc
    cases hc
  refine ⟨?_, hne (d := ';') (by decide) rfl, hne (d := ',') (by decide) rfl⟩
  simp only [isInert, isOpener, isCloser, Bool.and_eq_true, Bool.not_eq_true', Bool.or_eq_false_iff,
    decide_eq_false_iff_not]
  exact ⟨⟨⟨hne (d := '(') (by decide) rfl, hne (d := '[') (by decide) rfl⟩,
    hne (d := '{') (by decide) rfl⟩, ⟨hne (d := ')') (by decide) rfl,
    hne (d := ']') (by decide) rfl⟩, hne (d := '}') (by decide) rfl⟩

theorem IsPlain.byte (h : IsPlain left) :
    ∀ cell ∈ Cell.layout left, isInert cell.byte ∧ cell.byte ≠ 0x3B ∧ cell.byte ≠ 0x2C :=
  Cell.forall_mem_layout fun c hc _ hm => byte_of_not_isMark (h c hc) hm

theorem IsPlain.isNested (h : IsPlain left) : IsNested (Cell.layout left) :=
  isNested_of_inert fun cell hm => (h.byte cell hm).1

/-- The characters of a bracket of each kind and of the one that closes it. -/
inductive Pair : Char → Char → Prop where
  | parens : Pair '(' ')'
  | braces : Pair '{' '}'

variable {opening closing : Char}

theorem Pair.ascii (h : Pair opening closing) : opening.toNat < 128 ∧ closing.toNat < 128 := by
  cases h <;> decide

theorem Pair.closerOf (h : Pair opening closing) :
    closerOf opening.val.toUInt8 = some closing.val.toUInt8 := by
  cases h <;> rfl

theorem Pair.isNested (h : Pair opening closing) (hi : IsNested (Cell.layout inner))
    (hr : IsNested (Cell.layout right)) :
    IsNested (Cell.layout (opening :: (inner ++ closing :: right))) := by
  have hc : IsNested (⟨opening.val.toUInt8, some opening⟩ :: (Cell.layout inner ++
      [⟨closing.val.toUInt8, some closing⟩])) := hi.block h.closerOf
  have hb := hc.append hr
  simpa only [Cell.layout_cons_ascii h.ascii.1, Cell.layout_append,
    Cell.layout_cons_ascii h.ascii.2, List.cons_append, List.append_assoc, List.nil_append] using hb

theorem findFrom_plain (h : IsPlain left) (ht : terminator = 0x3B ∨ terminator = 0x2C) :
    findFrom terminator depth position (Cell.layout (left ++ right)) =
      findFrom terminator depth (position + Cell.width left) (Cell.layout right) := by
  rw [Cell.layout_append, Cell.width]
  have hb := h.byte
  generalize Cell.layout left = cells at hb ⊢
  induction cells generalizing position with
  | nil => rfl
  | cons cell rest ih =>
    obtain ⟨hi, hs, hc⟩ := hb cell List.mem_cons_self
    have hn : ¬ (cell.byte = terminator ∧ depth = 0) := by
      rintro ⟨he, _⟩
      rcases ht with rfl | rfl
      · exact hs he
      · exact hc he
    rw [List.cons_append, findFrom_other hi hn, ih fun cell hm => hb cell (List.mem_cons_of_mem _ hm),
      List.length_cons, Nat.add_assoc, Nat.add_comm 1]

theorem headsFrom_plain (hm : boundaries ≠ .topLevelLines) (h : IsPlain left) :
    headsFrom boundaries braces parens false position (Cell.layout (left ++ right)) =
      headsFrom boundaries braces parens false (position + Cell.width left) (Cell.layout right) := by
  rw [Cell.layout_append, headsFrom_inert hm (fun cell hc => ⟨(h.byte cell hc).1, (h.byte cell hc).2.1⟩)
    fun _ _ => rfl]
  rfl

theorem headsFrom_space (hm : boundaries ≠ .topLevelLines) (h : ∀ c ∈ left, CharClass.isAsciiSpace c) :
    headsFrom boundaries braces parens true position (Cell.layout (left ++ right)) =
      headsFrom boundaries braces parens true (position + Cell.width left) (Cell.layout right) := by
  have hp : IsPlain left := by
    intro c hc
    have hs := h c hc
    simp only [CharClass.isAsciiSpace, List.contains_eq_mem, decide_eq_true_eq, List.mem_cons,
      List.not_mem_nil, or_false] at hs
    rcases hs with rfl | rfl | rfl | rfl | rfl <;> rfl
  rw [Cell.layout_append,
    headsFrom_inert hm (fun cell hc => ⟨(hp.byte cell hc).1, (hp.byte cell hc).2.1⟩)]
  · rfl
  · intro cell hc
    simp only [Cell.isBlank_of_mem_layout h cell hc, Bool.not_true, Bool.and_false]

theorem headsFrom_word {c : Char} (hm : boundaries ≠ .topLevelLines) (hc : c.toNat < 128)
    (hs : CharClass.isAsciiSpace c = false) (hp : isMark c = false) :
    headsFrom boundaries braces parens true position (Cell.layout (c :: right)) =
      Slice.laid position (c :: right) ::
        headsFrom boundaries braces parens false (position + 1) (Cell.layout right) := by
  have hcell : (⟨c.val.toUInt8, some c⟩ : Cell) ∈ Cell.ofChar c := by
    rw [Cell.ofChar_ascii hc]
    exact List.mem_cons_self
  obtain ⟨hi, hn, _⟩ := byte_of_not_isMark hp hcell
  obtain ⟨hb, hr⟩ := counts_of_isInert braces parens hi
  rw [Slice.laid, Cell.layout_cons_ascii hc,
    headsFrom_head ((Cell.isBlank_of_mem_ofChar hcell).trans hs), hb, hr,
    endsStatement_of_isInert hm hi hn]

/-- Texts with a separator between them. -/
def joined (separator : Char) : List (List Char) → List Char
  | [] => []
  | [last] => last
  | first :: others => first ++ separator :: joined separator others

theorem joined_cons (separator : Char) (first second : List Char) (others : List (List Char)) :
    joined separator (first :: second :: others) =
      first ++ separator :: joined separator (second :: others) :=
  rfl

theorem joined_append (separator : Char) (front first : List Char) (others : List (List Char)) :
    joined separator ((front ++ first) :: others) = front ++ joined separator (first :: others) := by
  cases others with
  | nil => rfl
  | cons second others => rw [joined_cons, joined_cons, List.append_assoc]

theorem splitCells_last {separator : UInt8} {cells : List Cell}
    (h : ∀ cell ∈ cells, isInert cell.byte ∧ cell.byte ≠ separator) :
    splitCells separator 0 cells = [cells] := by
  induction cells with
  | nil => rfl
  | cons cell rest ih =>
    obtain ⟨hi, hn⟩ := h cell List.mem_cons_self
    rw [splitCells_depthAfter fun _ hb => absurd hb hn, depthAfter_inert hi,
      ih fun cell hm => h cell (List.mem_cons_of_mem _ hm), extend]

theorem splitCells_separator {separator : UInt8} {cells rest : List Cell} {cell : Cell}
    (h : ∀ cell ∈ cells, isInert cell.byte ∧ cell.byte ≠ separator) (hi : isInert separator)
    (hc : cell.byte = separator) :
    splitCells separator 0 (cells ++ cell :: rest) = cells :: splitCells separator 0 rest := by
  induction cells with
  | nil => exact splitCells_cut (hc ▸ hi) hc
  | cons first cells ih =>
    obtain ⟨hf, hn⟩ := h first List.mem_cons_self
    rw [List.cons_append, splitCells_depthAfter fun _ hb => absurd hb hn, depthAfter_inert hf,
      ih fun cell hm => h cell (List.mem_cons_of_mem _ hm), extend]

end Delimiter

namespace Slice

open Delimiter Cell

/-- The slices of texts that stand one byte apart. -/
def laidAll (position : Nat) : List (List Char) → List Slice
  | [] => []
  | first :: others => laid position first :: laidAll (position + width first + 1) others

variable {left right inner value : List Char} {opening closing : Char} {position : Nat}

theorem close?_laid (h : Pair opening closing) (hi : IsNested (layout inner)) :
    (laid position (opening :: (inner ++ closing :: right))).close? =
      some (position + 1 + width inner) := by
  rw [laid, layout_cons_ascii h.ascii.1, layout_append, layout_cons_ascii h.ascii.2]
  exact close?_nested h.closerOf hi

theorem block?_laid (h : Pair opening closing) (hi : IsNested (layout inner)) :
    (laid position (opening :: (inner ++ closing :: right))).block? =
      some (laid (position + 1) inner, laid (position + 1 + width inner + 1) right) := by
  rw [laid, layout_cons_ascii h.ascii.1, layout_append, layout_cons_ascii h.ascii.2]
  exact block?_nested h.closerOf hi

theorem find?_laid (h : IsPlain value) :
    (laid position (value ++ ';' :: right)).find? 0x3B = some (position + width value) := by
  rw [find?, laid, findFrom_plain h (.inl rfl), layout_cons_ascii (by decide)]
  exact findFrom_terminator rfl rfl

theorem place_splitCells {separator : Char} (hs : separator = ',' ∨ separator = ';')
    (first : List Char) (others : List (List Char)) (h : ∀ piece ∈ first :: others, IsPlain piece) :
    place position (splitCells separator.val.toUInt8 0 (layout (joined separator (first :: others)))) =
      laidAll position (first :: others) := by
  have hi : isInert separator.val.toUInt8 := by rcases hs with rfl | rfl <;> rfl
  have ha : separator.toNat < 128 := by rcases hs with rfl | rfl <;> decide
  have hb {piece : List Char} (hp : IsPlain piece) : ∀ cell ∈ layout piece,
      isInert cell.byte ∧ cell.byte ≠ separator.val.toUInt8 := by
    intro cell hm
    obtain ⟨hc, h1, h2⟩ := hp.byte cell hm
    rcases hs with rfl | rfl
    · exact ⟨hc, h2⟩
    · exact ⟨hc, h1⟩
  induction others generalizing first position with
  | nil =>
    simp only [joined, splitCells_last (hb (h first List.mem_cons_self)), place, laidAll, laid]
  | cons second others ih =>
    rw [joined_cons, layout_append, layout_cons_ascii ha,
      splitCells_separator (hb (h first List.mem_cons_self)) hi rfl, place, laidAll,
      ← ih second fun piece hm => h piece (List.mem_cons_of_mem _ hm)]
    rfl

theorem split_comma (position : Nat) (first : List Char) (others : List (List Char))
    (h : ∀ piece ∈ first :: others, IsPlain piece) :
    (laid position (joined ',' (first :: others))).split 0x2C = laidAll position (first :: others) :=
  place_splitCells (.inl rfl) first others h

theorem split_semicolon (position : Nat) (first : List Char) (others : List (List Char))
    (h : ∀ piece ∈ first :: others, IsPlain piece) :
    (laid position (joined ';' (first :: others))).split 0x3B = laidAll position (first :: others) :=
  place_splitCells (.inr rfl) first others h

end Slice

end CodeOutline
