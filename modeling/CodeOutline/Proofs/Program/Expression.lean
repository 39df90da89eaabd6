import CodeOutline.Proofs.Outline.Reading
import CodeOutline.Proofs.Program.Declaration
import CodeOutline.Proofs.Program.Tree

namespace CodeOutline

open Cell (layout width)
open Slice (laid laid_start laid_text laidAll)

namespace Slice

variable {left middle right : List Char} {position : Nat}

theorem fragment?_laid (hl : ∀ c ∈ left, CharClass.isAsciiSpace c)
    (hr : ∀ c ∈ right, CharClass.isAsciiSpace c)
    (hh : ∀ c ∈ middle.head?, CharClass.isAsciiSpace c = false)
    (ht : ∀ c ∈ middle.getLast?, CharClass.isAsciiSpace c = false) (hm : middle ≠ []) :
    (laid position (left ++ (middle ++ right))).fragment? = some (String.ofList middle) := by
  rw [fragment?, trim_laid hl hr hh ht hm, isEmpty_laid hm, laid_text]
  rfl

theorem fragment?_laid_of_space (h : ∀ c ∈ left, CharClass.isAsciiSpace c) :
    (laid position left).fragment? = none := by
  rw [fragment?, trim_laid_of_space h]
  rfl

theorem isEmpty_trim_of_fragment? {slice : Slice} :
    slice.trim.isEmpty = slice.fragment?.isNone := by
  rw [fragment?]
  split
  · next h => exact h
  · next h => exact Bool.eq_false_iff.2 h

end Slice

namespace Outline

theorem leaf_content (kind : NodeKind) (relation : Relation) (slice : Slice) :
    (leaf kind relation slice).map Item.content = Program.leaf kind relation slice.fragment? := by
  rw [leaf, Tree.map_node]
  rfl

end Outline

namespace Program

open Delimiter (joined IsPlain isMark)

variable {rest : List Char} {position : Nat}

theorem fragment?_initializer (position : Nat) (before gaps : Gaps) (word : Identifier)
    (middle : List Char) (phrase : Phrase) :
    (laid position (before.print ++ (word.chars ++ (middle ++ (gaps.print ++
      '=' :: phrase.print))))).fragment? =
    some (String.ofList (word.chars ++ (middle ++ (gaps.print ++
      '=' :: (phrase.before.print ++ phrase.expression.chars))))) := by
  obtain ⟨⟨hne, _, hlast⟩, _⟩ := phrase.expression.spec
  have hp : before.print ++ (word.chars ++ (middle ++ (gaps.print ++ '=' :: phrase.print))) =
      before.print ++ ((word.chars ++ (middle ++ (gaps.print ++
        '=' :: (phrase.before.print ++ phrase.expression.chars)))) ++ phrase.after.print) := by
    simp only [Phrase.print, List.append_assoc, List.cons_append]
  have hl : (word.chars ++ (middle ++ (gaps.print ++
      '=' :: (phrase.before.print ++ phrase.expression.chars)))).getLast? =
      phrase.expression.chars.getLast? := by
    have hr := getLast?_append_of_ne_nil (word.chars ++ (middle ++ (gaps.print ++
      '=' :: phrase.before.print))) hne
    rw [← hr]
    simp only [List.append_assoc, List.cons_append]
  rw [hp]
  apply Slice.fragment?_laid before.isAsciiSpace phrase.after.isAsciiSpace word.isAsciiSpace_head
  · rw [hl]
    exact hlast
  · simp [word.ne_nil]

theorem Phrase.fragment?_laid (phrase : Phrase) (position : Nat) :
    (laid position phrase.print).fragment? = some phrase.text := by
  obtain ⟨⟨hne, hh, hl⟩, _⟩ := phrase.expression.spec
  exact Slice.fragment?_laid phrase.before.isAsciiSpace phrase.after.isAsciiSpace hh hl hne

theorem Clause.fragment?_laid (clause : Clause) :
    (laid position clause.print).fragment? = clause.text? := by
  cases clause with
  | blank gaps => exact Slice.fragment?_laid_of_space gaps.isAsciiSpace
  | value phrase => exact phrase.fragment?_laid _

theorem Init.fragment?_laid (init : Init) :
    (laid position init.print).fragment? = init.text? := by
  cases init with
  | blank gaps => exact Slice.fragment?_laid_of_space gaps.isAsciiSpace
  | value phrase => exact phrase.fragment?_laid _
  | assignment before target gaps phrase =>
    exact fragment?_initializer _ before gaps target [] phrase
  | declaration before declared =>
    obtain ⟨type, name, gaps, initializer⟩ := declared
    cases initializer with
    | none =>
      have hp : before.print ++ Variable.print ⟨type, name, gaps, none⟩ =
          before.print ++ ((type.print ++ name.chars) ++ gaps.print) := by
        simp only [Variable.print, printInitializer, List.append_nil, List.append_assoc]
      rw [Init.print, hp]
      apply Slice.fragment?_laid before.isAsciiSpace gaps.isAsciiSpace
      · rw [TypeName.print, List.append_assoc]
        exact type.head.isAsciiSpace_head
      · rw [getLast?_append_of_ne_nil _ name.ne_nil]
        exact name.isAsciiSpace_last
      · simp [name.ne_nil]
    | some phrase =>
      have h := fragment?_initializer position before gaps type.head
        (TypeName.tail type.more ++ (type.last.print ++ name.chars)) phrase
      simpa only [Init.print, Init.text?, Variable.print, Variable.kept, printInitializer,
        TypeName.print, List.append_assoc] using h

theorem Variable.content (declared : Variable) (relation : Relation) (position : Nat) :
    (Outline.ofDeclaration relation (declared.declaration position)).map Item.content =
      declared.tree relation := by
  obtain ⟨type, name, gaps, initializer⟩ := declared
  rw [Outline.ofDeclaration, Tree.map_node, Variable.tree]
  cases initializer with
  | none => rfl
  | some phrase =>
    simp only [Variable.declaration, Option.map_some, Option.toList_some, List.map_cons,
      List.map_nil, Outline.leaf_content, phrase.fragment?_laid]
    rfl

theorem argument_leaves (phrases : List Phrase) :
    (((laidAll position (phrases.map Phrase.print)).filter fun piece => !piece.trim.isEmpty).map
      (Outline.leaf .argument .argument)).map (Tree.map Item.content) =
    phrases.map fun phrase => leaf .argument .argument phrase.text := by
  induction phrases generalizing position with
  | nil => rfl
  | cons phrase phrases ih =>
    have hf := phrase.fragment?_laid position
    simp only [List.map_cons, laidAll, List.filter_cons, Slice.isEmpty_trim_of_fragment?, hf] at ih ⊢
    rw [Option.isNone_some, Bool.not_false, if_pos rfl, List.map_cons, List.map_cons, ih,
      Outline.leaf_content, hf]

/-- White space after the opening parenthesis belongs to the first argument, if there is one. -/
theorem inner_eq_joined (inside : Gaps) (phrases : List Phrase) :
    ∃ first others, inside.print ++ joined ',' (phrases.map Phrase.print) =
        joined ',' (first :: others) ∧ (∀ piece ∈ first :: others, IsPlain piece) ∧
      ∀ position, (((laidAll position (first :: others)).filter fun piece =>
          !piece.trim.isEmpty).map (Outline.leaf .argument .argument)).map (Tree.map Item.content) =
        phrases.map fun phrase => leaf .argument .argument phrase.text := by
  cases phrases with
  | nil =>
    refine ⟨inside.print, [], by simp [joined], by simpa using inside.isPlain, fun position => ?_⟩
    have hf : (laid position inside.print).fragment? = none :=
      Slice.fragment?_laid_of_space inside.isAsciiSpace
    simp only [laidAll, List.filter_cons, Slice.isEmpty_trim_of_fragment?, hf]
    rfl
  | cons phrase phrases =>
    let first : Phrase := ⟨inside ++ phrase.before, phrase.expression, phrase.after⟩
    have hp : first.print = inside.print ++ phrase.print := by
      simp only [first, Phrase.print, Gaps.print, List.map_append, List.append_assoc]
    refine ⟨first.print, phrases.map Phrase.print, ?_, ?_, fun position => ?_⟩
    · rw [hp, Delimiter.joined_append]
      rfl
    · intro piece hm
      change piece ∈ (first :: phrases).map Phrase.print at hm
      obtain ⟨other, _, rfl⟩ := List.mem_map.1 hm
      exact other.isPlain
    · exact argument_leaves (first :: phrases)

theorem Call.content (called : Call) (relation : Relation) (start : Nat) :
    (Outline.ofCall relation (laid start called.name.chars) (laid position called.inner)).map
      Item.content = called.tree relation := by
  obtain ⟨first, others, he, hplain, hleaves⟩ := inner_eq_joined called.inside called.arguments
  rw [Outline.ofCall, Tree.map_node, Call.tree, Call.inner, laid_text, he,
    Slice.split_comma _ first others hplain, hleaves]
  rfl

theorem Gaps.word_free (gaps : Gaps) :
    ∀ c ∈ gaps.print, CharClass.isSpace c ∧ CharClass.isWord c = false :=
  forall_mem (P := fun c => CharClass.isSpace c ∧ CharClass.isWord c = false)
    (by decide) (by decide) gaps

theorem Gaps.callWord_free (gaps : Gaps) :
    ∀ c ∈ gaps.print, CharClass.isSpace c ∧ Outline.isCallWord c = false :=
  forall_mem (P := fun c => CharClass.isSpace c ∧ Outline.isCallWord c = false)
    (by decide) (by decide) gaps

theorem Call.print_append (called : Call) (rest : List Char) :
    called.print ++ rest = called.name.chars ++ (called.gaps.print ++
      '(' :: (called.inner ++ ')' :: rest)) := by
  simp only [Call.print, List.append_assoc, List.cons_append, List.nil_append]

theorem Call.heading? (called : Call) :
    (laid position (called.print ++ rest)).heading? = some ⟨laid position called.name.chars,
      laid (position + width (called.name.chars ++ called.gaps.print) + 1) called.inner,
      laid (position + width (called.name.chars ++ called.gaps.print) + 1 + width called.inner + 1)
        rest⟩ := by
  rw [called.print_append]
  exact Slice.heading?_laid called.name.isName called.gaps.word_free called.isNested_inner

theorem Call.findCall? (called : Call) (position : Nat) :
    (Outline.findCall? 0 position (layout called.print)).map (Tree.map Item.content) =
      some (called.tree .call) := by
  have hp := called.print_append []
  rw [List.append_nil] at hp
  have ho : (laid position called.print).opening? Outline.isCallWord =
      some (laid position called.name.chars, laid (position + width (called.name.chars ++
        called.gaps.print)) ('(' :: (called.inner ++ [')']))) := by
    rw [hp]
    exact Slice.opening?_laid called.name.isName
      (fun d hd => by simp [Outline.isCallWord, CharClass.isWord_of_isNameChar hd])
      called.gaps.callWord_free rfl
  have hk := called.name.not_isKeyword
  rw [Identifier.text] at hk
  have hb : (laid (position + width (called.name.chars ++ called.gaps.print))
      ('(' :: (called.inner ++ [')']))).block? = some (laid _ called.inner, laid _ []) :=
    Slice.block?_laid .parens called.isNested_inner
  have hn : layout called.print ≠ [] := by
    apply Cell.layout_ne_nil
    rw [Call.print]
    simp
  obtain ⟨cell, cells, hc⟩ := List.exists_cons_of_ne_nil hn
  rw [laid, hc] at ho
  rw [hc, Outline.findCall?]
  simp only [ho, laid_text, hk, hb, Bool.false_eq_true, if_false, Option.map_some]
  rw [called.content]

/-- The value of a return without the white space around it. -/
def Result.kept : Result → List Char
  | .empty _ => []
  | .value _ phrase => phrase.expression.chars
  | .call _ _ called _ => called.print

theorem Call.trim_laid (called : Call) (position : Nat) (before after : Gaps) :
    (laid position (before.print ++ (called.print ++ after.print))).trim =
      laid (position + width before.print) called.print := by
  apply Slice.trim_laid before.isAsciiSpace after.isAsciiSpace
  · rw [Call.print]
    exact called.name.isAsciiSpace_head
  · intro c hc
    have hl : called.print.getLast? = some ')' := by
      have hs : called.print = (called.name.chars ++ (called.gaps.print ++ '(' :: called.inner)) ++
          [')'] := by
        simp only [Call.print, List.append_assoc, List.cons_append]
      rw [hs, List.getLast?_append]
      rfl
    rw [hl] at hc
    cases hc
    rfl
  · rw [Call.print]
    simp

theorem Result.trim (given : Result) (position : Nat) :
    ∃ q, (laid position given.print).trim = laid q given.kept := by
  rcases given with gaps | ⟨gap, phrase⟩ | ⟨gap, before, called, after⟩
  · exact ⟨_, Slice.trim_laid_of_space gaps.isAsciiSpace⟩
  · obtain ⟨⟨hne, hh, hl⟩, _⟩ := phrase.expression.spec
    exact ⟨_, Slice.trim_laid (Gaps.isAsciiSpace (gap :: phrase.before))
      phrase.after.isAsciiSpace hh hl hne⟩
  · exact ⟨_, called.trim_laid _ (gap :: before) after⟩

theorem find?_nested (position : Nat) (rest : List Char) {left inner right : List Char}
    (hl : IsPlain left) (hi : Delimiter.IsNested (layout inner)) (hr : IsPlain right) :
    (laid position (left ++ '(' :: (inner ++ ')' :: (right ++ ';' :: rest)))).find? 0x3B =
      some (position + width (left ++ '(' :: (inner ++ ')' :: right))) := by
  have hp : '('.toNat < 128 ∧ ')'.toNat < 128 ∧ ';'.toNat < 128 := by decide
  change Delimiter.findFrom 0x3B 0 position (layout (left ++ '(' :: (inner ++
    ')' :: (right ++ ';' :: rest)))) = _
  rw [Delimiter.findFrom_plain hl (.inl rfl), Cell.layout_cons_ascii hp.1, Cell.layout_append,
    Cell.layout_cons_ascii hp.2.1, Delimiter.findFrom_nested rfl hi,
    Delimiter.findFrom_plain hr (.inl rfl), Cell.layout_cons_ascii hp.2.2]
  refine (Delimiter.findFrom_terminator rfl rfl).trans (congrArg some ?_)
  simp only [Cell.width_append, Cell.width_cons_ascii hp.1, Cell.width_cons_ascii hp.2.1]
  change position + width left + width inner + 2 + width right = _
  omega

theorem Result.find? (given : Result) :
    (laid position (given.print ++ ';' :: rest)).find? 0x3B =
      some (position + width given.print) := by
  rcases given with gaps | ⟨gap, phrase⟩ | ⟨gap, before, called, after⟩
  · exact Slice.find?_laid gaps.isPlain
  · exact Slice.find?_laid ((Gaps.isPlain [gap]).append phrase.isPlain)
  · have hl : IsPlain (Gaps.print (gap :: before) ++ (called.name.chars ++ called.gaps.print)) :=
      (Gaps.isPlain _).append (called.name.isPlain.append called.gaps.isPlain)
    have h := find?_nested position rest hl called.isNested_inner
      after.isPlain
    have hp : Result.print (.call gap before called after) =
        (Gaps.print (gap :: before) ++ (called.name.chars ++ called.gaps.print)) ++
          '(' :: (called.inner ++ ')' :: after.print) := by
      simp only [Result.print, Call.print, Gaps.print, List.map_cons, List.append_assoc,
        List.cons_append, List.nil_append]
    rw [hp]
    simpa only [List.append_assoc, List.cons_append] using h

theorem Result.head? (given : Result) :
    ∀ c ∈ (given.print ++ ';' :: rest).head?, CharClass.isWord c = false := by
  have hs : ∀ gaps : Gaps, ∀ c ∈ (gaps.print ++ ';' :: rest).head?, CharClass.isWord c = false := by
    intro gaps
    exact gaps.not_isWord_head fun c hc => by cases hc; rfl
  rcases given with gaps | ⟨gap, phrase⟩ | ⟨gap, before, called, after⟩
  · exact hs gaps
  · intro c hc
    cases hc
    exact hs [gap] gap.char rfl
  · intro c hc
    cases hc
    exact hs [gap] gap.char rfl

theorem Result.findCall?_kept (given : Result) (position : Nat) :
    given.tree = .node ⟨.returnStatement, .statement, none,
        (laid position given.kept).fragment?⟩
      ((Outline.findCall? 0 position (layout given.kept)).toList.map (Tree.map Item.content)) := by
  rcases given with gaps | ⟨gap, phrase⟩ | ⟨gap, before, called, after⟩
  · rfl
  · have hf := Phrase.fragment?_laid ⟨[], phrase.expression, []⟩ position
    have hb : ∀ cell ∈ layout phrase.expression.chars, cell.isAscii '(' = false := by
      refine Cell.forall_mem_layout fun c hc cell hm =>
        Cell.isAscii_of_mem_ofChar hm (by decide) ?_
      rintro rfl
      exact absurd (phrase.expression.isPlain _ hc) (by decide)
    simp only [Phrase.print, Gaps.print, List.map_nil, List.nil_append, List.append_nil] at hf
    simp only [kept, hf, Outline.findCall?_none hb, Option.toList_none, List.map_nil]
    rfl
  · have hf : (laid position called.print).fragment? = some (String.ofList called.print) := by
      have ht := called.trim_laid position [] []
      simp only [Gaps.print, List.map_nil, List.nil_append, List.append_nil] at ht
      have hn : called.print ≠ [] := by
        rw [Call.print]
        simp
      rw [Slice.fragment?, ht, Slice.isEmpty_laid hn, laid_text]
      rfl
    obtain ⟨outline, ho, hc⟩ := Option.map_eq_some_iff.1 (called.findCall? position)
    simp only [kept, hf, ho, Option.toList_some, List.map_cons, List.map_nil, hc]
    rfl

theorem Result.return?_laid (given : Result) :
    (Outline.return? (laid position (returnWord ++
      (given.print ++ ';' :: rest)))).map (Tree.map Item.content) = some given.tree := by
  obtain ⟨q, hq⟩ := given.trim (position + width returnWord)
  rw [Outline.return?, Slice.after?_laid isName_return (by decide) given.head?, Option.bind_some,
    given.find?, Option.map_some, Option.map_some, Slice.toOffset_laid]
  simp only [hq]
  rw [Tree.map_node, given.findCall?_kept q]
  rfl

end Program

end CodeOutline
