import CodeOutline.Outline.Statement
import CodeOutline.Proofs.Delimiter.Plain
import CodeOutline.Proofs.Shape.Declarator

namespace CodeOutline

namespace Slice

open Cell (layout width)
open CharClass (IsName isWord)
open Delimiter (IsNested IsPlain Pair)

variable {word gaps inner rest : List Char} {position : Nat}

theorem opening?_laid {cls : Char → Bool} (hn : IsName word)
    (hw : ∀ d, CharClass.isNameChar d → cls d)
    (hg : ∀ c ∈ gaps, CharClass.isSpace c ∧ cls c = false) (hp : cls '(' = false) :
    (laid position (word ++ (gaps ++ '(' :: rest))).opening? cls =
      some (laid position word, laid (position + width (word ++ gaps)) ('(' :: rest)) := by
  have hr : ∀ d ∈ (gaps ++ '(' :: rest).head?, cls d = false := by
    cases gaps with
    | nil => simpa using hp
    | cons g gaps => simpa using (hg g List.mem_cons_self).2
  have hs : (laid (position + width word) (gaps ++ '(' :: rest)).skipSpace =
      laid (position + width (word ++ gaps)) ('(' :: rest) := by
    rw [skipSpace_laid fun c hc => (hg c hc).1, Cell.width_append, Nat.add_assoc]
    intro c hc
    cases hc
    rfl
  simp only [opening?, word?_name hn hw hr, Option.bind_some, hs,
    startsWith_laid (c := '(') (by decide), if_true]

theorem heading?_laid (hn : IsName word) (hg : ∀ c ∈ gaps, CharClass.isSpace c ∧ isWord c = false)
    (hi : IsNested (layout inner)) :
    (laid position (word ++ (gaps ++ '(' :: (inner ++ ')' :: rest)))).heading? =
      some ⟨laid position word, laid (position + width (word ++ gaps) + 1) inner,
        laid (position + width (word ++ gaps) + 1 + width inner + 1) rest⟩ := by
  simp only [heading?, opening?_laid hn (fun _ => CharClass.isWord_of_isNameChar) hg rfl,
    Option.bind_some, block?_laid .parens hi, Option.map_some]

theorem heading?_none (h : ∀ name after, (laid position rest).word? isWord = some (name, after) →
    after.skipSpace.startsWith '(' = false) : (laid position rest).heading? = none := by
  rw [heading?, opening?]
  cases hw : (laid position rest).word? isWord with
  | none => rfl
  | some found =>
    obtain ⟨name, after⟩ := found
    simp [h name after hw]

theorem after?_laid {keyword : String} (hn : IsName word) (hk : String.ofList word = keyword)
    (hr : ∀ d ∈ rest.head?, isWord d = false) :
    (laid position (word ++ rest)).after? keyword = some (laid (position + width word) rest) := by
  rw [after?, word?_name hn (fun _ => CharClass.isWord_of_isNameChar) hr]
  simp only [Option.bind_some, laid_text, hk, if_true]

theorem after?_laid_none {keyword : String} (hn : IsName word) (hk : String.ofList word ≠ keyword)
    (hr : ∀ d ∈ rest.head?, isWord d = false) :
    (laid position (word ++ rest)).after? keyword = none := by
  rw [after?, word?_name hn (fun _ => CharClass.isWord_of_isNameChar) hr]
  simp only [Option.bind_some, laid_text, hk, if_false]

theorem next?_laid {c : Char} (hg : ∀ c ∈ gaps, CharClass.isAsciiSpace c)
    (hc : CharClass.isAsciiSpace c = false) :
    (laid position (gaps ++ c :: rest)).next? = some (laid (position + width gaps) (c :: rest)) := by
  have hs : (laid position (gaps ++ c :: rest)).skipBlank =
      laid (position + width gaps) (c :: rest) := skipBlank_laid hg (by simpa using hc)
  rw [next?, hs, isEmpty_laid (List.cons_ne_nil _ _)]
  rfl

theorem next?_laid_none (hg : ∀ c ∈ gaps, CharClass.isAsciiSpace c) :
    (laid position gaps).next? = none := by
  have hs : (laid position (gaps ++ [])).skipBlank = laid (position + width gaps) [] :=
    skipBlank_laid hg (by simp)
  rw [List.append_nil] at hs
  rw [next?, hs]
  rfl

theorem mem_of_startsWith {slice : Slice} {c : Char} (h : slice.startsWith c) :
    ∃ cell ∈ slice.cells, cell.isAscii c := by
  rw [startsWith, Option.any_eq_true] at h
  obtain ⟨cell, hc, hs⟩ := h
  exact ⟨cell, List.mem_of_head? hc, hs⟩

theorem skipSpace_plain (h : IsPlain rest) (tail : List Char) :
    (laid position (rest ++ ';' :: tail)).skipSpace.startsWith '(' = false := by
  have hb : ∀ cell ∈ layout rest, cell.isAscii '(' = false := by
    refine Cell.forall_mem_layout fun c hc cell hm => Cell.isAscii_of_mem_ofChar hm (by decide) ?_
    rintro rfl
    exact absurd (h _ hc) (by decide)
  rw [laid, Cell.layout_append, Cell.layout_cons_ascii (by decide), skipSpace, drop, run, startsWith]
  generalize layout rest = cells at hb ⊢
  induction cells with
  | nil => rfl
  | cons cell cells ih =>
    simp only [List.cons_append]
    cases hw : cell.within CharClass.isSpace with
    | true =>
      rw [List.takeWhile_cons_of_pos hw]
      exact ih fun cell hm => hb cell (List.mem_cons_of_mem _ hm)
    | false =>
      rw [List.takeWhile_cons_of_neg (by simp [hw])]
      exact hb cell List.mem_cons_self

end Slice

namespace Outline

open Cell (layout width)
open Delimiter (IsNested Pair)
open Slice (laid)

variable {gaps inner rest : List Char} {position : Nat}

theorem body?_laid (levels : Nat) (below : Level) (relation : Relation)
    (hg : ∀ c ∈ gaps, CharClass.isAsciiSpace c) (hi : IsNested (layout inner)) :
    body? levels (some below) relation (laid position (gaps ++ '{' :: (inner ++ '}' :: rest))) =
      some (.node ⟨.blockStatement, relation, position + width gaps, none, .absent⟩
          (below.block (laid (position + width gaps + 1) inner)),
        laid (position + width gaps + 1 + width inner + 1) rest) := by
  rw [body?, Slice.next?_laid hg rfl, Option.bind_some, Slice.startsWith_laid (by decide),
    Slice.block?_laid .braces hi]
  rfl

theorem conditional?_of_ne {slice : Slice} {heading : Heading} (h : slice.heading? = some heading)
    (hn : heading.name.text ≠ "if") (levels : Nat) (below : Option Level) :
    conditional? levels below slice = none := by
  rw [conditional?, h, Option.bind_some, if_neg hn]

theorem forLoop?_of_ne {slice : Slice} {heading : Heading} (h : slice.heading? = some heading)
    (hn : heading.name.text ≠ "for") (levels : Nat) (below : Option Level) :
    forLoop? levels below slice = none := by
  rw [forLoop?, h, Option.bind_some, if_neg hn]

theorem findCall?_none {cells : List Cell} (h : ∀ cell ∈ cells, cell.isAscii '(' = false)
    (skipped : Nat) : findCall? skipped position cells = none := by
  induction cells generalizing skipped position with
  | nil => rfl
  | cons cell rest ih =>
    have hr : ∀ cell ∈ rest, cell.isAscii '(' = false :=
      fun cell hm => h cell (List.mem_cons_of_mem _ hm)
    cases skipped with
    | succ skipped => exact ih hr skipped
    | zero =>
      have ho : (Slice.mk position (cell :: rest)).opening? isCallWord = none := by
        rw [Slice.opening?, Slice.word?]
        simp only
        split
        · rw [Option.bind_some, if_neg]
          intro hs
          obtain ⟨found, hm, hf⟩ := Slice.mem_of_startsWith hs
          rw [h found (List.mem_of_mem_drop (List.mem_of_mem_drop hm))] at hf
          cases hf
        · rfl
      rw [findCall?, ho]
      exact ih hr 0

end Outline

end CodeOutline
