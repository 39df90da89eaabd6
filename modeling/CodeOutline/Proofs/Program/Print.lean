import CodeOutline.Proofs.Program.Syntax
import CodeOutline.Shape.Declarator

namespace CodeOutline.Program

open Delimiter (IsPlain IsNested isMark joined)
open Cell (layout)

namespace Gaps

variable {gaps : Gaps} {rest : List Char} {P : Char → Prop}

theorem forall_mem (hs : P ' ') (hn : P '\n') (gaps : Gaps) : ∀ c ∈ gaps.print, P c := by
  intro c hc
  obtain ⟨gap, _, rfl⟩ := List.mem_map.1 hc
  cases gap
  · exact hs
  · exact hn

theorem forall_head (hs : P ' ') (hn : P '\n') (gaps : Gaps) (hr : ∀ c ∈ rest.head?, P c) :
    ∀ c ∈ (gaps.print ++ rest).head?, P c := by
  cases gaps with
  | nil => exact hr
  | cons gap gaps =>
    intro c hc
    cases hc
    cases gap
    · exact hs
    · exact hn

theorem not_isWord_head (gaps : Gaps) (hr : ∀ c ∈ rest.head?, CharClass.isWord c = false) :
    ∀ c ∈ (gaps.print ++ rest).head?, CharClass.isWord c = false :=
  forall_head (P := fun c => CharClass.isWord c = false) rfl rfl gaps hr

theorem isAsciiSpace (gaps : Gaps) : ∀ c ∈ gaps.print, CharClass.isAsciiSpace c :=
  forall_mem (P := fun c => CharClass.isAsciiSpace c) rfl rfl gaps

theorem isSpace (gaps : Gaps) : ∀ c ∈ gaps.print, CharClass.isSpace c :=
  forall_mem (P := fun c => CharClass.isSpace c) rfl rfl gaps

theorem isPlain (gaps : Gaps) : IsPlain gaps.print :=
  forall_mem (P := fun c => isMark c = false) rfl rfl gaps

end Gaps

namespace Identifier

theorem isNameChar (word : Identifier) : ∀ c ∈ word.chars, CharClass.isNameChar c := by
  have h := word.valid
  simp only [isIdentifier, Bool.and_eq_true, List.all_eq_true] at h
  exact h.1.2

theorem not_isKeyword (word : Identifier) : Keyword.isKeyword word.text = false := by
  have h := word.valid
  simp only [isIdentifier, Bool.and_eq_true, Bool.not_eq_true'] at h
  exact h.2

theorem eq_cons (word : Identifier) : ∃ c rest, word.chars = c :: rest ∧
    CharClass.isWordStart c ∧ ∀ d ∈ rest, CharClass.isNameChar d := by
  have h := word.valid
  have hn := word.isNameChar
  cases hw : word.chars with
  | nil => rw [hw] at h; cases h
  | cons c rest =>
    rw [hw] at h hn
    simp only [isIdentifier, Bool.and_eq_true, List.head?_cons, Option.any_some] at h
    exact ⟨c, rest, rfl, h.1.1, fun d hd => hn d (List.mem_cons_of_mem _ hd)⟩

theorem forall_mem (test : Char → Bool) (h : ∀ code < 128,
    !CharClass.isNameChar (Char.ofNat code) || test (Char.ofNat code)) (word : Identifier) :
    ∀ c ∈ word.chars, test c := by
  exact fun c hc => CharClass.of_isNameChar test h (word.isNameChar c hc)

theorem forall_head {rest : List Char} (test : Char → Bool) (h : ∀ code < 128,
    !CharClass.isNameChar (Char.ofNat code) || test (Char.ofNat code)) (word : Identifier) :
    ∀ c ∈ (word.chars ++ rest).head?, test c := by
  obtain ⟨c, others, he, _, _⟩ := word.eq_cons
  have hm := forall_mem test h word
  rw [he] at hm ⊢
  intro d hd
  cases hd
  exact hm c List.mem_cons_self

theorem isPlain (word : Identifier) : IsPlain word.chars :=
  fun c hc => Delimiter.isMark_of_isNameChar (word.isNameChar c hc)

theorem isWord (word : Identifier) : ∀ c ∈ word.chars, CharClass.isWord c :=
  fun c hc => CharClass.isWord_of_isNameChar (word.isNameChar c hc)

theorem isAsciiSpace_head {rest : List Char} (word : Identifier) :
    ∀ c ∈ (word.chars ++ rest).head?, CharClass.isAsciiSpace c = false := by
  intro c hc
  have h := Identifier.forall_head (!CharClass.isAsciiSpace ·) (by decide +kernel) word
    c hc
  simpa using h

theorem isAsciiSpace_last (word : Identifier) :
    ∀ c ∈ word.chars.getLast?, CharClass.isAsciiSpace c = false := by
  intro c hc
  have h := Identifier.forall_mem (!CharClass.isAsciiSpace ·) (by decide +kernel) word c
    (List.mem_of_getLast? hc)
  simpa using h

theorem ne_nil (word : Identifier) : word.chars ≠ [] := by
  obtain ⟨c, others, he, _, _⟩ := word.eq_cons
  rw [he]
  exact List.cons_ne_nil _ _

theorem isName (word : Identifier) : CharClass.IsName word.chars :=
  word.eq_cons

end Identifier

theorem getLast?_append_of_ne_nil (left : List Char) {right : List Char} (h : right ≠ []) :
    (left ++ right).getLast? = right.getLast? := by
  rw [List.getLast?_append]
  cases hr : right.getLast? with
  | none => exact absurd (List.getLast?_eq_none_iff.1 hr) h
  | some c => rfl

namespace Expression

theorem spec (expression : Expression) : (expression.chars ≠ [] ∧
    (∀ c ∈ expression.chars.head?, CharClass.isAsciiSpace c = false) ∧
    (∀ c ∈ expression.chars.getLast?, CharClass.isAsciiSpace c = false)) ∧
    (∀ c ∈ expression.chars, isQuote c = false) ∧ IsPlain expression.chars ∧
    hasMarker expression.chars = false := by
  have h := expression.valid
  generalize expression.chars = chars at h
  simp only [isExpression, Bool.and_eq_true, List.all_eq_true, Bool.not_eq_true'] at h
  obtain ⟨⟨⟨hh, hl⟩, ha⟩, hm⟩ := h
  rw [Option.any_eq_true] at hh hl
  obtain ⟨first, hf, hfs⟩ := hh
  obtain ⟨last, he, hls⟩ := hl
  refine ⟨⟨?_, ?_, ?_⟩, fun c hc => (ha c hc).1, fun c hc => (ha c hc).2, hm⟩
  · rintro rfl
    cases hf
  · intro c hc
    rw [Option.mem_def, hf, Option.some_inj] at hc
    rw [← hc]
    simpa using hfs
  · intro c hc
    rw [Option.mem_def, he, Option.some_inj] at hc
    rw [← hc]
    simpa using hls

theorem isPlain (expression : Expression) : IsPlain expression.chars :=
  expression.spec.2.2.1

end Expression

theorem Phrase.isPlain (phrase : Phrase) : IsPlain phrase.print :=
  phrase.before.isPlain.append (phrase.expression.isPlain.append phrase.after.isPlain)

theorem Joint.isPlain (joint : Joint) : IsPlain joint.print := by
  intro c hc
  obtain ⟨mark, _, rfl⟩ := List.mem_map.1 hc
  rcases mark with ⟨gap⟩ | _
  · cases gap <;> rfl
  · rfl

theorem TypeName.isPlain_tail (more : List (Joint × Identifier)) : IsPlain (tail more) := by
  induction more with
  | nil => exact Delimiter.isPlain_nil
  | cons unit more ih => exact (unit.1.isPlain.append unit.2.isPlain).append ih

theorem TypeName.isPlain (type : TypeName) : IsPlain type.print :=
  type.head.isPlain.append ((isPlain_tail type.more).append type.last.isPlain)

theorem isPlain_printInitializer (initializer : Option Phrase) :
    IsPlain (printInitializer initializer) := by
  cases initializer with
  | none => exact Delimiter.isPlain_nil
  | some phrase => exact phrase.isPlain.cons rfl

theorem Variable.isPlain (declared : Variable) : IsPlain declared.print :=
  declared.type.isPlain.append (declared.name.isPlain.append
    (declared.gaps.isPlain.append (isPlain_printInitializer declared.initializer)))

theorem Formal.isPlain (formal : Formal) : IsPlain formal.print :=
  formal.before.isPlain.append (formal.type.isPlain.append
    (formal.name.isPlain.append formal.after.isPlain))

theorem Clause.isPlain (clause : Clause) : IsPlain clause.print := by
  cases clause with
  | blank gaps => exact gaps.isPlain
  | value phrase => exact phrase.isPlain

theorem Init.isPlain (init : Init) : IsPlain init.print := by
  cases init with
  | blank gaps => exact gaps.isPlain
  | declaration before declared => exact before.isPlain.append declared.isPlain
  | assignment before target gaps phrase =>
    exact before.isPlain.append (target.isPlain.append (gaps.isPlain.append
      (phrase.isPlain.cons rfl)))
  | value phrase => exact phrase.isPlain

theorem isNested_append {left right : List Char} (hl : IsNested (layout left))
    (hr : IsNested (layout right)) : IsNested (layout (left ++ right)) := by
  rw [Cell.layout_append]
  exact hl.append hr

theorem isNested_cons {c : Char} {rest : List Char} (hc : isMark c = false ∨ c = ',' ∨ c = ';')
    (hr : IsNested (layout rest)) : IsNested (layout (c :: rest)) := by
  have h : IsNested (layout [c]) := by
    rcases hc with hc | rfl | rfl
    · exact (Delimiter.isPlain_nil.cons hc).isNested
    · rfl
    · rfl
  exact isNested_append h hr

theorem isNested_joined {separator : Char} (hs : separator = ',' ∨ separator = ';')
    (pieces : List (List Char)) (h : ∀ piece ∈ pieces, IsPlain piece) :
    IsNested (layout (joined separator pieces)) := by
  induction pieces with
  | nil => rfl
  | cons first others ih =>
    have hf := (h first List.mem_cons_self).isNested
    cases others with
    | nil => exact hf
    | cons second others =>
      rw [Delimiter.joined_cons]
      exact isNested_append hf (isNested_cons (.inr hs)
        (ih fun piece hm => h piece (List.mem_cons_of_mem _ hm)))

theorem Call.isNested_inner (called : Call) : IsNested (layout called.inner) := by
  refine isNested_append called.inside.isPlain.isNested (isNested_joined (.inl rfl) _ ?_)
  intro piece hm
  obtain ⟨phrase, _, rfl⟩ := List.mem_map.1 hm
  exact phrase.isPlain

theorem Call.isNested (called : Call) : IsNested (layout called.print) :=
  isNested_append called.name.isPlain.isNested (isNested_append called.gaps.isPlain.isNested
    (Delimiter.Pair.parens.isNested called.isNested_inner rfl))

theorem Guard.isNested (guard : Guard) : IsNested (layout guard.print) :=
  isNested_append guard.before.isPlain.isNested
    (Delimiter.Pair.parens.isNested guard.condition.isPlain.isNested guard.after.isPlain.isNested)

theorem Header.pieces_isPlain (header : Header) :
    ∀ piece ∈ [header.init.print, header.test.print, header.update.print], IsPlain piece := by
  simp only [List.mem_cons, List.not_mem_nil, or_false, forall_eq_or_imp, forall_eq]
  exact ⟨header.init.isPlain, header.test.isPlain, header.update.isPlain⟩

theorem Header.isNested_inner (header : Header) : IsNested (layout header.inner) :=
  isNested_joined (.inr rfl) _ header.pieces_isPlain

theorem Header.isNested (header : Header) : IsNested (layout header.print) :=
  isNested_append header.before.isPlain.isNested
    (Delimiter.Pair.parens.isNested header.isNested_inner header.after.isPlain.isNested)

theorem Result.isNested (given : Result) : IsNested (layout given.print) := by
  rcases given with gaps | ⟨gap, phrase⟩ | ⟨gap, before, called, after⟩
  · exact gaps.isPlain.isNested
  · exact (Gaps.isPlain [gap] |>.append phrase.isPlain).isNested
  · exact isNested_append (Gaps.isPlain [gap]).isNested (isNested_append before.isPlain.isNested
      (isNested_append called.isNested after.isPlain.isNested))

theorem isNested_semicolon : IsNested (layout [';']) := rfl

mutual

theorem Statement.isNested (statement : Statement) : IsNested (layout statement.print) := by
  cases statement with
  | declaration declared => exact isNested_append declared.isPlain.isNested isNested_semicolon
  | call called gaps =>
    exact isNested_append called.isNested
      (isNested_append gaps.isPlain.isNested isNested_semicolon)
  | result given =>
    exact isNested_append rfl (isNested_append given.isNested isNested_semicolon)
  | conditional guard body alternative =>
    exact isNested_append rfl (isNested_append guard.isNested
      (Delimiter.Pair.braces.isNested body.isNested alternative.isNested))
  | forLoop header body =>
    exact isNested_append rfl (isNested_append header.isNested
      (Delimiter.Pair.braces.isNested body.isNested rfl))
  | whileLoop guard body =>
    exact isNested_append rfl (isNested_append guard.isNested
      (Delimiter.Pair.braces.isNested body.isNested rfl))

theorem Alternative.isNested (alternative : Alternative) :
    IsNested (layout alternative.print) := by
  cases alternative with
  | none => rfl
  | chain before gap between guard body alternative =>
    exact isNested_append before.isPlain.isNested (isNested_append rfl
      (isNested_append (Gaps.isPlain [gap]).isNested
        (isNested_append between.isPlain.isNested (isNested_append rfl
          (isNested_append guard.isNested
            (Delimiter.Pair.braces.isNested body.isNested alternative.isNested))))))
  | block before between body =>
    exact isNested_append before.isPlain.isNested (isNested_append rfl
      (isNested_append between.isPlain.isNested
        (Delimiter.Pair.braces.isNested body.isNested rfl)))

theorem Block.isNested (block : Block) : IsNested (layout block.print) := by
  cases block with
  | done gaps => exact gaps.isPlain.isNested
  | cons gaps statement rest =>
    exact isNested_append gaps.isPlain.isNested
      (isNested_append statement.isNested rest.isNested)

end

theorem Function.isNested_list (defined : Function) : IsNested (layout defined.list) := by
  refine isNested_append defined.inside.isPlain.isNested (isNested_joined (.inl rfl) _ ?_)
  intro piece hm
  obtain ⟨formal, _, rfl⟩ := List.mem_map.1 hm
  exact formal.isPlain

section

variable (rest : List Char)

theorem isName_if : CharClass.IsName ifWord :=
  ⟨'i', ['f'], rfl, by decide, by simp [CharClass.isNameChar]⟩

theorem isName_else : CharClass.IsName elseWord :=
  ⟨'e', ['l', 's', 'e'], rfl, by decide, by simp [CharClass.isNameChar]⟩

theorem isName_for : CharClass.IsName forWord :=
  ⟨'f', ['o', 'r'], rfl, by decide, by simp [CharClass.isNameChar]⟩

theorem isName_while : CharClass.IsName whileWord :=
  ⟨'w', ['h', 'i', 'l', 'e'], rfl, by decide, by simp [CharClass.isNameChar]⟩

theorem isName_return : CharClass.IsName returnWord :=
  ⟨'r', ['e', 't', 'u', 'r', 'n'], rfl, by decide, by simp [CharClass.isNameChar]⟩

theorem Guard.print_append (guard : Guard) :
    guard.print ++ rest = guard.before.print ++ '(' :: (guard.condition.print ++
      ')' :: (guard.after.print ++ rest)) := by
  simp only [Guard.print, List.append_assoc, List.cons_append]

theorem Header.print_append (header : Header) :
    header.print ++ rest = header.before.print ++ '(' :: (header.inner ++
      ')' :: (header.after.print ++ rest)) := by
  simp only [Header.print, List.append_assoc, List.cons_append]

theorem Statement.print_declaration (declared : Variable) :
    (Statement.declaration declared).print ++ rest = declared.print ++ ';' :: rest := by
  simp only [Statement.print, List.append_assoc, List.cons_append, List.nil_append]

theorem Statement.print_call (called : Call) (gaps : Gaps) :
    (Statement.call called gaps).print ++ rest =
      called.print ++ (gaps.print ++ ';' :: rest) := by
  simp only [Statement.print, List.append_assoc, List.cons_append, List.nil_append]

theorem Statement.print_result (given : Result) :
    (Statement.result given).print ++ rest = returnWord ++ (given.print ++ ';' :: rest) := by
  simp only [Statement.print, List.append_assoc, List.cons_append, List.nil_append]

theorem Statement.print_conditional (guard : Guard) (body : Block) (alternative : Alternative) :
    (Statement.conditional guard body alternative).print ++ rest = ifWord ++ (guard.print ++
      '{' :: (body.print ++ '}' :: (alternative.print ++ rest))) := by
  simp only [Statement.print, List.append_assoc, List.cons_append]

theorem Statement.print_forLoop (header : Header) (body : Block) :
    (Statement.forLoop header body).print ++ rest = forWord ++ (header.print ++
      '{' :: (body.print ++ '}' :: rest)) := by
  simp only [Statement.print, List.append_assoc, List.cons_append, List.nil_append]

theorem Statement.print_whileLoop (guard : Guard) (body : Block) :
    (Statement.whileLoop guard body).print ++ rest = whileWord ++ (guard.print ++
      '{' :: (body.print ++ '}' :: rest)) := by
  simp only [Statement.print, List.append_assoc, List.cons_append, List.nil_append]

theorem Alternative.print_chain (before : Gaps) (gap : Gap) (between : Gaps) (guard : Guard)
    (body : Block) (alternative : Alternative) :
    (Alternative.chain before gap between guard body alternative).print ++ rest =
      before.print ++ (elseWord ++ (Gaps.print (gap :: between) ++ (ifWord ++ (guard.print ++
        '{' :: (body.print ++ '}' :: (alternative.print ++ rest)))))) := by
  simp only [Alternative.print, Gaps.print, List.map_cons, List.append_assoc, List.cons_append]

theorem Alternative.print_block (before between : Gaps) (body : Block) :
    (Alternative.block before between body).print ++ rest =
      before.print ++ (elseWord ++ (between.print ++ '{' :: (body.print ++ '}' :: rest))) := by
  simp only [Alternative.print, List.append_assoc, List.cons_append, List.nil_append]

end

end CodeOutline.Program
