import CodeOutline.Proofs.Program.Expression

namespace CodeOutline

open Cell (layout width)
open Slice (laid)
open CharClass (IsName)

namespace Delimiter

variable {boundaries : Boundaries} {braces parens position : Nat} {word inner rest : List Char}

/-- Whether a semicolon ends a statement, outside parentheses. -/
def Separates (boundaries : Boundaries) (braces : Nat) : Prop :=
  boundaries = .nested ∨ boundaries = .topLevel ∧ braces = 0

theorem headsFrom_semicolon_laid (h : Separates boundaries braces) :
    headsFrom boundaries braces 0 false position (layout (';' :: rest)) =
      headsFrom boundaries braces 0 true (position + 1) (layout rest) := by
  rw [Cell.layout_cons_ascii (by decide)]
  rcases h with rfl | ⟨rfl, rfl⟩
  · exact headsFrom_nested_semicolon rfl
  · exact headsFrom_semicolon rfl

theorem headsFrom_parens_laid (h : IsNested (layout inner)) :
    headsFrom boundaries braces parens false position (layout ('(' :: (inner ++ ')' :: rest))) =
      headsFrom boundaries braces parens false (position + 1 + width inner + 1) (layout rest) := by
  rw [Cell.layout_cons_ascii (by decide), Cell.layout_append, Cell.layout_cons_ascii (by decide),
    headsFrom_parens rfl rfl h]
  congr 1
  change position + width inner + 2 = _
  omega

theorem headsFrom_braces_laid (h : IsNested (layout inner)) :
    headsFrom .topLevel 0 0 false position (layout ('{' :: (inner ++ '}' :: rest))) =
      headsFrom .topLevel 0 0 true (position + 1 + width inner + 1) (layout rest) := by
  rw [Cell.layout_cons_ascii (by decide), Cell.layout_append, Cell.layout_cons_ascii (by decide),
    headsFrom_braces rfl rfl h]
  congr 1
  change position + width inner + 2 = _
  omega

theorem headsFrom_name (hm : boundaries ≠ .topLevelLines) (h : IsName word) :
    headsFrom boundaries braces parens true position (layout (word ++ rest)) =
      laid position (word ++ rest) ::
        headsFrom boundaries braces parens false (position + width word) (layout rest) := by
  obtain ⟨c, others, rfl, hc, ho⟩ := h
  have hn := CharClass.isNameChar_of_isWordStart hc
  have ha := CharClass.ascii_of_isNameChar hn
  rw [List.cons_append, headsFrom_word hm ha (CharClass.isAsciiSpace_of_isNameChar hn)
    (isMark_of_isNameChar hn), headsFrom_plain hm fun d hd => isMark_of_isNameChar (ho d hd),
    Cell.width_cons_ascii ha, Nat.add_assoc]

end Delimiter

namespace Program

open Delimiter (Separates headsFrom IsNested IsPlain)

variable {boundaries : Boundaries} {braces position : Nat} {rest : List Char}

theorem headsFrom_heading (hm : boundaries ≠ .topLevelLines) (before after : Gaps)
    {inner : List Char} (hi : IsNested (layout inner)) :
    headsFrom boundaries braces 0 false position
        (layout (before.print ++ '(' :: (inner ++ ')' :: (after.print ++ rest)))) =
      headsFrom boundaries braces 0 false
        (position + width (before.print ++ '(' :: (inner ++ ')' :: after.print))) (layout rest) := by
  have hp : '('.toNat < 128 ∧ ')'.toNat < 128 := by decide
  rw [Delimiter.headsFrom_plain hm before.isPlain, Delimiter.headsFrom_parens_laid hi,
    Delimiter.headsFrom_plain hm after.isPlain]
  congr 1
  simp only [Cell.width_append, Cell.width_cons_ascii hp.1, Cell.width_cons_ascii hp.2]
  omega

theorem Guard.headsFrom (guard : Guard) (hm : boundaries ≠ .topLevelLines) :
    headsFrom boundaries braces 0 false position (layout (guard.print ++ rest)) =
      headsFrom boundaries braces 0 false (position + width guard.print) (layout rest) := by
  rw [guard.print_append]
  exact headsFrom_heading hm guard.before guard.after guard.condition.isPlain.isNested

theorem Header.headsFrom (header : Header) (hm : boundaries ≠ .topLevelLines) :
    headsFrom boundaries braces 0 false position (layout (header.print ++ rest)) =
      headsFrom boundaries braces 0 false (position + width header.print) (layout rest) := by
  rw [header.print_append]
  exact headsFrom_heading hm header.before header.after header.isNested_inner

theorem Call.headsFrom (called : Call) (gaps : Gaps) (hm : boundaries ≠ .topLevelLines) :
    headsFrom boundaries braces 0 true position (layout (called.print ++ (gaps.print ++ rest))) =
      laid position (called.print ++ (gaps.print ++ rest)) ::
        headsFrom boundaries braces 0 false (position + width (called.print ++ gaps.print))
          (layout rest) := by
  have hp := called.print_append (gaps.print ++ rest)
  rw [hp, Delimiter.headsFrom_name hm called.name.isName,
    headsFrom_heading hm called.gaps gaps called.isNested_inner]
  congr 2
  simp only [Call.print, Cell.width_append, Cell.width_cons_ascii (c := '(') (by decide),
    Cell.width_cons_ascii (c := ')') (by decide), Cell.width_nil]
  omega

theorem Variable.headsFrom (declared : Variable) (hm : boundaries ≠ .topLevelLines) :
    headsFrom boundaries braces 0 true position (layout (declared.print ++ rest)) =
      laid position (declared.print ++ rest) ::
        headsFrom boundaries braces 0 false (position + width declared.print) (layout rest) := by
  have hp : declared.print ++ rest = declared.type.head.chars ++
      ((TypeName.tail declared.type.more ++ (declared.type.last.print ++ (declared.name.chars ++
        (declared.gaps.print ++ printInitializer declared.initializer)))) ++ rest) := by
    simp only [Variable.print, TypeName.print, List.append_assoc]
  have hplain := (TypeName.isPlain_tail declared.type.more).append (declared.type.last.isPlain.append
    (declared.name.isPlain.append (declared.gaps.isPlain.append
      (isPlain_printInitializer declared.initializer))))
  rw [hp, Delimiter.headsFrom_name hm declared.type.head.isName,
    Delimiter.headsFrom_plain hm hplain]
  congr 2
  simp only [Variable.print, TypeName.print, Cell.width_append]
  omega

theorem Result.headsFrom (given : Result) (hm : boundaries ≠ .topLevelLines) :
    headsFrom boundaries braces 0 false position (layout (given.print ++ rest)) =
      headsFrom boundaries braces 0 false (position + width given.print) (layout rest) := by
  rcases given with gaps | ⟨gap, phrase⟩ | ⟨gap, before, called, after⟩
  · exact Delimiter.headsFrom_plain hm gaps.isPlain
  · exact Delimiter.headsFrom_plain hm ((Gaps.isPlain [gap]).append phrase.isPlain)
  · have hp : Result.print (.call gap before called after) ++ rest =
        (Gaps.print (gap :: before) ++ called.name.chars) ++ (called.gaps.print ++
          '(' :: (called.inner ++ ')' :: (after.print ++ rest))) := by
      simp only [Result.print, Call.print, Gaps.print, List.map_cons, List.append_assoc,
        List.cons_append, List.nil_append]
    rw [hp, Delimiter.headsFrom_plain hm ((Gaps.isPlain _).append called.name.isPlain),
      headsFrom_heading hm called.gaps after called.isNested_inner]
    congr 1
    simp only [Result.print, Call.print, Gaps.print, List.map_cons, List.append_assoc,
      List.cons_append, List.nil_append, Cell.width_append, Cell.width_cons]
    omega

/-- The text from an `else` on: white space and then a brace or another conditional follow. -/
def IsElse (head : Slice) : Prop :=
  ∃ position rest, ∃ gaps : Gaps, head = laid position (elseWord ++ (gaps.print ++ rest)) ∧
    (rest.head? = some '{' ∨ gaps ≠ [] ∧ rest.head? = some 'i')

theorem headsFrom_space (hm : boundaries ≠ .topLevelLines) (gaps : Gaps) :
    Delimiter.headsFrom boundaries braces 0 true position (layout (gaps.print ++ rest)) =
      Delimiter.headsFrom boundaries braces 0 true (position + width gaps.print) (layout rest) :=
  Delimiter.headsFrom_space hm gaps.isAsciiSpace

/-- After the braced body of a conditional no statement starts but at the `else` of its branches. -/
theorem Alternative.heads (alternative : Alternative) (position : Nat) (rest : List Char) :
    ∃ extra next, headsFrom .topLevel 0 0 true position (layout (alternative.print ++ rest)) =
      extra ++ headsFrom .topLevel 0 0 true next (layout rest) ∧ ∀ head ∈ extra, IsElse head := by
  have hm : Boundaries.topLevel ≠ .topLevelLines := by decide
  cases alternative with
  | none => exact ⟨[], position, rfl, fun head hh => absurd hh List.not_mem_nil⟩
  | chain before gap between guard body alternative =>
    have hif : IsPlain ifWord := Delimiter.isPlain_of_isName isName_if
    obtain ⟨extra, next, he, hx⟩ := alternative.heads
      (position + width before.print + width elseWord + width (Gaps.print (gap :: between)) +
        width ifWord + width guard.print + 1 + width body.print + 1) rest
    refine ⟨laid (position + width before.print) (elseWord ++ (Gaps.print (gap :: between) ++
      (ifWord ++ (guard.print ++ '{' :: (body.print ++ '}' :: (alternative.print ++ rest)))))) ::
        extra, next, ?_, ?_⟩
    · rw [Alternative.print_chain, headsFrom_space hm, Delimiter.headsFrom_name hm isName_else,
        Delimiter.headsFrom_plain hm (Gaps.isPlain _), Delimiter.headsFrom_plain hm hif,
        guard.headsFrom hm, Delimiter.headsFrom_braces_laid body.isNested, he, List.cons_append]
    · intro head hh
      rcases List.mem_cons.1 hh with rfl | hh
      · exact ⟨_, _, gap :: between, rfl, .inr ⟨List.cons_ne_nil _ _, rfl⟩⟩
      · exact hx head hh
  | block before between body =>
    refine ⟨[laid (position + width before.print) (elseWord ++ (between.print ++
      '{' :: (body.print ++ '}' :: rest)))], position + width before.print + width elseWord +
        width between.print + 1 + width body.print + 1, ?_, ?_⟩
    · rw [Alternative.print_block, headsFrom_space hm, Delimiter.headsFrom_name hm isName_else,
        Delimiter.headsFrom_plain hm between.isPlain, Delimiter.headsFrom_braces_laid body.isNested]
      rfl
    · intro head hh
      rw [List.mem_singleton.1 hh]
      exact ⟨_, _, between, rfl, .inl rfl⟩

/-- Beside its own start a statement has none but those of the `else` branches. -/
theorem Statement.heads (statement : Statement) (position : Nat) (rest : List Char) : ∃ extra next,
    headsFrom .topLevel 0 0 true position (layout (statement.print ++ rest)) =
      laid position (statement.print ++ rest) ::
        (extra ++ headsFrom .topLevel 0 0 true next (layout rest)) ∧
      ∀ head ∈ extra, IsElse head := by
  have hm : Boundaries.topLevel ≠ .topLevelLines := by decide
  have hsep : Separates .topLevel 0 := .inr ⟨rfl, rfl⟩
  have hnil : ∀ head ∈ ([] : List Slice), IsElse head := fun head hh => absurd hh List.not_mem_nil
  cases statement with
  | declaration declared =>
    refine ⟨[], position + width declared.print + 1, ?_, hnil⟩
    rw [Statement.print_declaration, declared.headsFrom hm,
      Delimiter.headsFrom_semicolon_laid hsep, List.nil_append]
  | call called gaps =>
    refine ⟨[], position + width (called.print ++ gaps.print) + 1, ?_, hnil⟩
    rw [Statement.print_call, called.headsFrom gaps hm, Delimiter.headsFrom_semicolon_laid hsep,
      List.nil_append]
  | result given =>
    refine ⟨[], position + width returnWord + width given.print + 1, ?_, hnil⟩
    rw [Statement.print_result, Delimiter.headsFrom_name hm isName_return, given.headsFrom hm,
      Delimiter.headsFrom_semicolon_laid hsep, List.nil_append]
  | conditional guard body alternative =>
    obtain ⟨extra, next, he, hx⟩ := alternative.heads
      (position + width ifWord + width guard.print + 1 + width body.print + 1) rest
    refine ⟨extra, next, ?_, hx⟩
    rw [Statement.print_conditional, Delimiter.headsFrom_name hm isName_if, guard.headsFrom hm,
      Delimiter.headsFrom_braces_laid body.isNested, he]
  | forLoop header body =>
    refine ⟨[], position + width forWord + width header.print + 1 + width body.print + 1, ?_, hnil⟩
    rw [Statement.print_forLoop, Delimiter.headsFrom_name hm isName_for, header.headsFrom hm,
      Delimiter.headsFrom_braces_laid body.isNested, List.nil_append]
  | whileLoop guard body =>
    refine ⟨[], position + width whileWord + width guard.print + 1 + width body.print + 1, ?_, hnil⟩
    rw [Statement.print_whileLoop, Delimiter.headsFrom_name hm isName_while, guard.headsFrom hm,
      Delimiter.headsFrom_braces_laid body.isNested, List.nil_append]

end Program

end CodeOutline
