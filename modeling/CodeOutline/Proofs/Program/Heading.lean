import CodeOutline.Proofs.Program.Heads
import CodeOutline.Proofs.Shape.Keyword

namespace CodeOutline.Program

open Cell (layout width)
open Slice (laid laid_text)
open Delimiter (IsNested IsPlain)

variable {position : Nat} {rest : List Char}

theorem Gap.isWord_char (gap : Gap) : CharClass.isWord gap.char = false := by
  cases gap <;> rfl

theorem read?_keyword {word chars : List Char} (hn : CharClass.IsName word)
    (hk : Keyword.isKeyword (String.ofList word))
    (hw : ∀ c ∈ chars.head?, CharClass.isWord c = false) :
    Declaration.read? (laid position (word ++ chars)) = none := by
  have hword : (laid position (word ++ chars)).word? CharClass.isWord =
      some (laid position word, laid (position + width word) chars) :=
    Slice.word?_name hn (fun _ => CharClass.isWord_of_isNameChar) hw
  rw [Declaration.read?, Declarator.read?_of_keyword hword (by rwa [laid_text])]
  rfl

theorem Guard.head? (guard : Guard) (rest : List Char) :
    ∀ c ∈ (guard.print ++ rest).head?, CharClass.isWord c = false := by
  rw [guard.print_append]
  exact guard.before.not_isWord_head fun c hc => by cases hc; rfl

theorem Header.head? (header : Header) (rest : List Char) :
    ∀ c ∈ (header.print ++ rest).head?, CharClass.isWord c = false := by
  rw [header.print_append]
  exact header.before.not_isWord_head fun c hc => by cases hc; rfl

theorem Guard.read? (guard : Guard) (position : Nat) (rest : List Char) {word : List Char}
    (hn : CharClass.IsName word) (hk : Keyword.isKeyword (String.ofList word)) :
    Declaration.read? (laid position (word ++ (guard.print ++ rest))) = none :=
  read?_keyword hn hk (guard.head? rest)

theorem Header.read? (header : Header) (position : Nat) (rest : List Char) {word : List Char}
    (hn : CharClass.IsName word) (hk : Keyword.isKeyword (String.ofList word)) :
    Declaration.read? (laid position (word ++ (header.print ++ rest))) = none :=
  read?_keyword hn hk (header.head? rest)

theorem Guard.heading? (guard : Guard) (position : Nat) (rest : List Char) {word : List Char}
    (hn : CharClass.IsName word) :
    ∃ q q', (laid position (word ++ (guard.print ++ rest))).heading? = some ⟨laid position word,
      laid q guard.condition.print, laid q' (guard.after.print ++ rest)⟩ := by
  rw [guard.print_append]
  exact ⟨_, _, Slice.heading?_laid hn guard.before.word_free guard.condition.isPlain.isNested⟩

theorem Header.heading? (header : Header) (position : Nat) (rest : List Char) {word : List Char}
    (hn : CharClass.IsName word) :
    ∃ q, (laid position (word ++ (header.print ++ rest))).heading? = some ⟨laid position word,
      laid (position + width (word ++ header.before.print) + 1) header.inner,
      laid q (header.after.print ++ rest)⟩ := by
  rw [header.print_append]
  exact ⟨_, Slice.heading?_laid hn header.before.word_free header.isNested_inner⟩

theorem heading?_gaps {word : List Char} (hn : CharClass.IsName word) (gaps : Gaps)
    (hw : ∀ c ∈ (gaps.print ++ rest).head?, CharClass.isWord c = false)
    (hs : ∀ c ∈ rest.head?, CharClass.isSpace c = false) (hp : ∀ c ∈ rest.head?, c ≠ '(') :
    (laid position (word ++ (gaps.print ++ rest))).heading? = none := by
  apply Slice.heading?_none
  intro name after h
  rw [Slice.word?_name hn (fun _ => CharClass.isWord_of_isNameChar) hw] at h
  cases h
  rw [Slice.skipSpace_laid gaps.isSpace hs]
  exact Slice.not_startsWith_laid (by decide) hp

theorem head?_of_else {gaps : Gaps}
    (hd : rest.head? = some '{' ∨ gaps ≠ [] ∧ rest.head? = some 'i') :
    ∀ c ∈ (gaps.print ++ rest).head?, CharClass.isWord c = false := by
  rcases hd with hd | ⟨hg, _⟩
  · apply gaps.not_isWord_head
    intro c hc
    rw [hd] at hc
    cases hc
    rfl
  · obtain ⟨gap, gaps, rfl⟩ := List.exists_cons_of_ne_nil hg
    intro c hc
    cases hc
    exact gap.isWord_char

theorem IsElse.spec {head : Slice} (h : IsElse head) : head.heading? = none ∧
    Declaration.read? head = none ∧ head.after? "return" = none := by
  obtain ⟨position, rest, gaps, rfl, hd⟩ := h
  have hw := head?_of_else hd
  have hrest : ∀ c ∈ rest.head?, c = '{' ∨ c = 'i' := by
    intro c hc
    rcases hd with hd | ⟨_, hd⟩
    · rw [hd] at hc
      cases hc
      exact .inl rfl
    · rw [hd] at hc
      cases hc
      exact .inr rfl
  refine ⟨?_, read?_keyword isName_else (by decide) hw,
    Slice.after?_laid_none isName_else (by decide) hw⟩
  apply heading?_gaps isName_else gaps hw
  · intro c hc
    rcases hrest c hc with rfl | rfl <;> rfl
  · intro c hc
    rcases hrest c hc with rfl | rfl <;> decide

theorem Result.heading? (given : Result) :
    (laid position (returnWord ++ (given.print ++ ';' :: rest))).heading? = none := by
  have hplain {chars : List Char} (hp : IsPlain chars)
      (hw : ∀ c ∈ (chars ++ ';' :: rest).head?, CharClass.isWord c = false) :
      (laid position (returnWord ++ (chars ++ ';' :: rest))).heading? = none := by
    apply Slice.heading?_none
    intro name after h
    rw [Slice.word?_name isName_return (fun _ => CharClass.isWord_of_isNameChar) hw] at h
    cases h
    exact Slice.skipSpace_plain hp rest
  have hhead : ∀ c ∈ (given.print ++ ';' :: rest).head?, CharClass.isWord c = false := given.head?
  rcases given with gaps | ⟨gap, phrase⟩ | ⟨gap, before, called, after⟩
  · exact hplain gaps.isPlain hhead
  · exact hplain ((Gaps.isPlain [gap]).append phrase.isPlain) hhead
  · have hp : Result.print (.call gap before called after) ++ ';' :: rest =
        Gaps.print (gap :: before) ++ (called.name.chars ++ (called.gaps.print ++
          '(' :: (called.inner ++ ')' :: (after.print ++ ';' :: rest)))) := by
      simp only [Result.print, Call.print, Gaps.print, List.map_cons, List.append_assoc,
        List.cons_append, List.nil_append]
    rw [hp] at hhead ⊢
    apply heading?_gaps isName_return (gap :: before) hhead
    · intro c hc
      have h := Identifier.forall_head (!CharClass.isSpace ·) (by decide +kernel) called.name c hc
      simpa using h
    · intro c hc
      have h := Identifier.forall_head (· != '(') (by decide +kernel) called.name c hc
      simpa using h

theorem Result.read? (given : Result) :
    Declaration.read? (laid position (returnWord ++ (given.print ++ ';' :: rest))) = none :=
  read?_keyword isName_return (by decide) given.head?

theorem Call.read? (called : Call) :
    Declaration.read? (laid position (called.print ++ rest)) = none := by
  obtain ⟨c, word, he, hc, hw⟩ := called.name.eq_cons
  have hg : ∀ c ∈ called.gaps.print, c.toNat < 128 ∧ CharClass.isWord c = false ∧
      Declarator.isSeparator c := by
    apply Gaps.forall_mem (P := fun c => c.toNat < 128 ∧ CharClass.isWord c = false ∧
      Declarator.isSeparator c) <;> decide
  have hp := called.print_append rest
  rw [he, List.cons_append] at hp
  rw [Declaration.read?, hp, Declarator.read?_single hc
    (fun c hm => CharClass.isWord_of_isNameChar (hw c hm)) hg rfl rfl]
  rfl

end CodeOutline.Program
