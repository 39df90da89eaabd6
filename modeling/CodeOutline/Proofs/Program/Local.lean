import CodeOutline.Proofs.Program.Declared
import CodeOutline.Proofs.Program.Heading
import CodeOutline.Symbol.Collect

namespace CodeOutline

open Cell (layout width)
open Slice (laid laid_text)

namespace Delimiter

variable {braces position : Nat} {rest : List Char}

theorem headsFrom_nested_opening_laid :
    headsFrom .nested braces 0 false position (layout ('{' :: rest)) =
      headsFrom .nested (braces + 1) 0 true (position + 1) (layout rest) := by
  rw [Cell.layout_cons_ascii (by decide)]
  exact headsFrom_nested_opening rfl

theorem headsFrom_nested_closing_laid :
    headsFrom .nested (braces + 1) 0 true position (layout ('}' :: rest)) =
      laid position ('}' :: rest) ::
        headsFrom .nested braces 0 true (position + 1) (layout rest) := by
  have hb : (⟨'}'.val.toUInt8, some '}'⟩ : Cell).isBlank = false := rfl
  rw [laid, Cell.layout_cons_ascii (by decide), headsFrom_head hb]
  rfl

end Delimiter

/-- Numbers in ascending order, from a start up to a stop. -/
def Ascends (start stop : Nat) (numbers : List Nat) : Prop :=
  start ≤ stop ∧ numbers.Pairwise (· < ·) ∧ ∀ number ∈ numbers, start ≤ number ∧ number < stop

namespace Ascends

variable {start middle stop : Nat} {left right : List Nat}

theorem nil (h : start ≤ stop) : Ascends start stop [] :=
  ⟨h, List.Pairwise.nil, fun _ hm => absurd hm List.not_mem_nil⟩

theorem singleton {number : Nat} (hs : start ≤ number) (hn : number < stop) :
    Ascends start stop [number] := by
  refine ⟨Nat.le_trans hs (Nat.le_of_lt hn), List.pairwise_singleton _ _, ?_⟩
  intro other hm
  rw [List.mem_singleton.1 hm]
  exact ⟨hs, hn⟩

theorem append (hl : Ascends start middle left) (hr : Ascends middle stop right) :
    Ascends start stop (left ++ right) := by
  obtain ⟨hsm, hlp, hlm⟩ := hl
  obtain ⟨hms, hrp, hrm⟩ := hr
  refine ⟨Nat.le_trans hsm hms, List.pairwise_append.2 ⟨hlp, hrp, ?_⟩, ?_⟩
  · intro a ha b hb
    have := hlm a ha
    have := hrm b hb
    omega
  · intro number hm
    rcases List.mem_append.1 hm with hm | hm
    · have := hlm number hm
      omega
    · have := hrm number hm
      omega

theorem mono {start' stop' : Nat} (h : Ascends start stop left) (hs : start' ≤ start)
    (ht : stop ≤ stop') : Ascends start' stop' left := by
  obtain ⟨hst, hp, hm⟩ := h
  refine ⟨by omega, hp, fun number hn => ?_⟩
  have := hm number hn
  omega

end Ascends

namespace Program

open Candidate (local?)

variable {braces position start middle stop : Nat} {rest : List Char}

/-- Declarations found in a stretch of the text that are those of the given variables. -/
def Finds (start stop : Nat) (found : List Declaration) (expected : List Variable) : Prop :=
  Ascends start stop (found.map (·.nameOffset)) ∧
    found.map (fun declaration => (declaration.name, declaration.declaredType)) =
      expected.map fun declared => (declared.name.text, declared.type.text)

namespace Finds

variable {left right : List Declaration} {before after : List Variable}

theorem nil (h : start ≤ stop) : Finds start stop [] [] :=
  ⟨Ascends.nil h, rfl⟩

theorem singleton (declared : Variable) (hs : start ≤ position)
    (ht : position + width declared.print ≤ stop) :
    Finds start stop [declared.declaration position] [declared] := by
  refine ⟨Ascends.singleton ?_ ?_, rfl⟩
  · exact Nat.le_trans hs (Nat.le_add_right _ _)
  · have hn : 0 < width declared.name.chars :=
      List.length_pos_iff.2 (Cell.layout_ne_nil declared.name.ne_nil)
    rw [Variable.print, Cell.width_append, Cell.width_append] at ht
    simp only [Variable.declaration]
    omega

theorem append (hl : Finds start middle left before) (hr : Finds middle stop right after) :
    Finds start stop (left ++ right) (before ++ after) := by
  refine ⟨?_, ?_⟩
  · rw [List.map_append]
    exact hl.1.append hr.1
  · rw [List.map_append, List.map_append, hl.2, hr.2]

theorem mono {start' stop' : Nat} (h : Finds start stop left before) (hs : start' ≤ start)
    (ht : stop ≤ stop') : Finds start' stop' left before :=
  ⟨h.1.mono hs ht, h.2⟩

end Finds

/-- The declarations found from a place on where a statement may start. -/
def localsFrom (braces position : Nat) (text : List Char) : List Declaration :=
  (Delimiter.headsFrom .nested braces 0 true position (layout text)).filterMap local?

theorem localsFrom_space (gaps : Gaps) :
    localsFrom braces position (gaps.print ++ rest) =
      localsFrom braces (position + width gaps.print) rest := by
  rw [localsFrom, headsFrom_space (by decide)]
  rfl

theorem local?_of_heading? {slice : Slice} {heading : Heading}
    (hr : Declaration.read? slice = none) (hh : slice.heading? = some heading)
    (hn : heading.name.text ≠ "for") : local? slice = none := by
  rw [local?, hr, hh, Option.none_or, Option.bind_some, if_neg hn]

theorem local?_of_heading?_none {slice : Slice} (hr : Declaration.read? slice = none)
    (hh : slice.heading? = none) : local? slice = none := by
  rw [local?, hr, hh]
  rfl

theorem localsFrom_closing :
    localsFrom (braces + 1) position ('}' :: rest) = localsFrom braces (position + 1) rest := by
  have hcell : layout ('}' :: rest) = ⟨'}'.val.toUInt8, some '}'⟩ :: layout rest :=
    Cell.layout_cons_ascii (by decide) rest
  have hh : (laid position ('}' :: rest)).heading? = none := by
    rw [laid, hcell]
    rfl
  have hr : Declaration.read? (laid position ('}' :: rest)) = none := by
    rw [laid, hcell]
    rfl
  rw [localsFrom, Delimiter.headsFrom_nested_closing_laid,
    List.filterMap_cons_none (local?_of_heading?_none hr hh)]
  rfl

/-- Whether the declarations in a stretch of text are found whatever follows it. -/
def ReadsLocals (text : List Char) (expected : List Variable) : Prop :=
  ∀ braces position rest, ∃ found,
    localsFrom braces position (text ++ rest) =
        found ++ localsFrom braces (position + width text) rest ∧
      Finds position (position + width text) found expected

theorem ReadsLocals.nil : ReadsLocals [] [] :=
  fun _ _ _ => ⟨[], rfl, Finds.nil (Nat.le_add_right _ _)⟩

theorem ReadsLocals.append {left right : List Char} {before after : List Variable}
    (hl : ReadsLocals left before) (hr : ReadsLocals right after) :
    ReadsLocals (left ++ right) (before ++ after) := by
  intro braces position rest
  obtain ⟨first, hf, hff⟩ := hl braces position (right ++ rest)
  obtain ⟨others, ho, hof⟩ := hr braces (position + width left) rest
  rw [Cell.width_append, ← Nat.add_assoc]
  refine ⟨first ++ others, ?_, hff.append hof⟩
  rw [List.append_assoc, hf, ho, List.append_assoc]

theorem readsLocals_space (gaps : Gaps) : ReadsLocals gaps.print [] :=
  fun _ _ _ => ⟨[], localsFrom_space gaps, Finds.nil (Nat.le_add_right _ _)⟩

theorem ReadsLocals.inBraces {body : List Char} {expected : List Variable}
    (h : ReadsLocals body expected) (braces position : Nat) (rest : List Char) : ∃ found,
      (Delimiter.headsFrom .nested braces 0 false position
          (layout ('{' :: (body ++ '}' :: rest)))).filterMap local? =
        found ++ localsFrom braces (position + 1 + width body + 1) rest ∧
      Finds position (position + 1 + width body + 1) found expected := by
  obtain ⟨found, he, hf⟩ := h (braces + 1) (position + 1) ('}' :: rest)
  refine ⟨found, ?_, hf.mono (Nat.le_succ _) (Nat.le_succ _)⟩
  rw [Delimiter.headsFrom_nested_opening_laid, ← localsFrom_closing]
  exact he

theorem read?_of_not_isWordStart {c : Char} (ha : c.toNat < 128)
    (hc : CharClass.isWordStart c = false) :
    Declaration.read? (laid position (c :: rest)) = none := by
  rw [Declaration.read?, Declarator.read?, laid, Cell.layout_cons_ascii ha]
  simp only [Cell.begins, Option.any_some, hc, Bool.false_eq_true, if_false, Option.bind_none]

theorem Init.read?_laid (init : Init) (ho : init.isOrdinary) (position : Nat) (rest : List Char) :
    ∃ found : Option Declaration,
      (laid position (init.print ++ ';' :: rest)).next?.bind Declaration.read? = found ∧
        Finds position (position + width init.print) found.toList init.variables := by
  have hmark : CharClass.isAsciiSpace ';' = false := rfl
  cases init with
  | blank gaps =>
    refine ⟨none, ?_, Finds.nil (Nat.le_add_right _ _)⟩
    rw [Init.print, Slice.next?_laid gaps.isAsciiSpace hmark, Option.bind_some]
    exact read?_of_not_isWordStart (by decide) rfl
  | declaration before declared =>
    obtain ⟨c, word, _, hp, hc, _⟩ := declared.type.eq_cons
    have hspace := CharClass.isAsciiSpace_of_isNameChar (CharClass.isNameChar_of_isWordStart hc)
    obtain ⟨others, hcons⟩ : ∃ others, declared.print ++ ';' :: rest = c :: others := by
      rw [Variable.print, hp]
      exact ⟨_, rfl⟩
    refine ⟨some (declared.declaration (position + width before.print)), ?_, ?_⟩
    · rw [Init.print, List.append_assoc, hcons, Slice.next?_laid before.isAsciiSpace hspace,
        ← hcons, Option.bind_some, declared.read?_laid]
    · refine Finds.singleton declared (Nat.le_add_right _ _) ?_
      rw [Init.print, Cell.width_append]
      omega
  | assignment before target gaps phrase =>
    obtain ⟨c, word, hp, hc, hw⟩ := target.eq_cons
    have hspace := CharClass.isAsciiSpace_of_isNameChar (CharClass.isNameChar_of_isWordStart hc)
    have hg : ∀ c ∈ gaps.print, c.toNat < 128 ∧ CharClass.isWord c = false ∧
        Declarator.isSeparator c := by
      apply Gaps.forall_mem (P := fun c => c.toNat < 128 ∧ CharClass.isWord c = false ∧
        Declarator.isSeparator c) <;> decide
    refine ⟨none, ?_, Finds.nil (Nat.le_add_right _ _)⟩
    rw [Init.print, hp]
    simp only [List.append_assoc, List.cons_append]
    rw [Slice.next?_laid before.isAsciiSpace hspace, Option.bind_some, Declaration.read?,
      Declarator.read?_single hc (fun c hm => CharClass.isWord_of_isNameChar (hw c hm)) hg rfl rfl]
    rfl
  | value phrase => cases ho

theorem Header.local?_laid (header : Header) (ho : header.init.isOrdinary) (position : Nat)
    (rest : List Char) : ∃ found : Option Declaration,
      local? (laid position (forWord ++ (header.print ++ rest))) = found ∧
        Finds position (position + width (forWord ++ header.print)) found.toList
          header.init.variables := by
  obtain ⟨q, hh⟩ := header.heading? position rest isName_for
  obtain ⟨found, he, hf⟩ := header.init.read?_laid ho
    (position + width (forWord ++ header.before.print) + 1)
    (Delimiter.joined ';' [header.test.print, header.update.print])
  have hread := header.read? position rest isName_for (by decide)
  have hword : (laid position forWord).text = "for" := laid_text ..
  refine ⟨found, ?_, hf.mono ?_ ?_⟩
  · rw [local?, hread, hh, Option.none_or, Option.bind_some, if_pos hword]
    exact he
  · omega
  · simp only [Header.print, Header.inner, Delimiter.joined, Cell.width_append,
      Cell.width_cons_ascii (c := '(') (by decide), Cell.width_cons_ascii (c := ')') (by decide),
      Cell.width_cons_ascii (c := ';') (by decide)]
    omega

theorem Variable.local?_laid (declared : Variable) (position : Nat) (rest : List Char) :
    local? (laid position (declared.print ++ ';' :: rest)) =
      some (declared.declaration position) := by
  rw [local?, declared.read?_laid, Option.some_or]

theorem Guard.local?_laid (guard : Guard) (position : Nat) (rest : List Char) {word : List Char}
    (hn : CharClass.IsName word) (hk : Keyword.isKeyword (String.ofList word))
    (hw : String.ofList word ≠ "for") :
    local? (laid position (word ++ (guard.print ++ rest))) = none := by
  obtain ⟨q, q', hh⟩ := guard.heading? position rest hn
  apply local?_of_heading? (guard.read? position rest hn hk) hh
  rw [laid_text]
  exact hw

theorem Call.local?_laid (called : Call) (position : Nat) (rest : List Char) :
    local? (laid position (called.print ++ rest)) = none := by
  apply local?_of_heading? called.read? called.heading?
  rw [laid_text]
  intro he
  have hk := called.name.not_isKeyword
  rw [Identifier.text, he] at hk
  cases hk

theorem Result.local?_laid (given : Result) (position : Nat) (rest : List Char) :
    local? (laid position (returnWord ++ (given.print ++ ';' :: rest))) = none :=
  local?_of_heading?_none given.read? given.heading?

theorem IsElse.local? {head : Slice} (h : IsElse head) : local? head = none :=
  local?_of_heading?_none h.spec.2.1 h.spec.1

/-- Whether just the given variables are found in the front of a statement. The front reaches up to
a mark, and no other statement starts in it. -/
def ReadsFront (mark : Char) (front : List Char) (expected : List Variable) : Prop :=
  ∀ braces position rest, ∃ found,
    localsFrom braces position (front ++ mark :: rest) =
        found ++ (Delimiter.headsFrom .nested braces 0 false (position + width front)
          (layout (mark :: rest))).filterMap local? ∧
      Finds position (position + width front) found expected

theorem nested_ne_topLevelLines : Boundaries.nested ≠ .topLevelLines := by
  decide

theorem Variable.readsFront (declared : Variable) : ReadsFront ';' declared.print [declared] := by
  intro braces position rest
  refine ⟨[declared.declaration position], ?_,
    Finds.singleton declared (Nat.le_refl _) (Nat.le_refl _)⟩
  rw [localsFrom, declared.headsFrom nested_ne_topLevelLines,
    List.filterMap_cons_some (declared.local?_laid _ _), List.singleton_append]

theorem Call.readsFront (called : Call) (gaps : Gaps) :
    ReadsFront ';' (called.print ++ gaps.print) [] := by
  intro braces position rest
  refine ⟨[], ?_, Finds.nil (Nat.le_add_right _ _)⟩
  rw [List.append_assoc, localsFrom, called.headsFrom gaps nested_ne_topLevelLines,
    List.filterMap_cons_none (called.local?_laid _ _), List.nil_append]

theorem Result.readsFront (given : Result) : ReadsFront ';' (returnWord ++ given.print) [] := by
  intro braces position rest
  refine ⟨[], ?_, Finds.nil (Nat.le_add_right _ _)⟩
  rw [List.append_assoc, localsFrom, Delimiter.headsFrom_name nested_ne_topLevelLines isName_return,
    given.headsFrom nested_ne_topLevelLines, List.filterMap_cons_none (given.local?_laid _ _),
    Cell.width_append, Nat.add_assoc, List.nil_append]

theorem Guard.readsFront (guard : Guard) {word : List Char} (hn : CharClass.IsName word)
    (hk : Keyword.isKeyword (String.ofList word)) (hw : String.ofList word ≠ "for") :
    ReadsFront '{' (word ++ guard.print) [] := by
  intro braces position rest
  refine ⟨[], ?_, Finds.nil (Nat.le_add_right _ _)⟩
  rw [List.append_assoc, localsFrom, Delimiter.headsFrom_name nested_ne_topLevelLines hn,
    guard.headsFrom nested_ne_topLevelLines,
    List.filterMap_cons_none (guard.local?_laid position _ hn hk hw), Cell.width_append,
    Nat.add_assoc, List.nil_append]

theorem Header.readsFront (header : Header) (h : header.init.isOrdinary) :
    ReadsFront '{' (forWord ++ header.print) header.init.variables := by
  intro braces position rest
  obtain ⟨clause, hc, hf⟩ := header.local?_laid h position ('{' :: rest)
  refine ⟨clause.toList, ?_, hf⟩
  rw [List.append_assoc, localsFrom, Delimiter.headsFrom_name nested_ne_topLevelLines isName_for,
    header.headsFrom nested_ne_topLevelLines, List.filterMap_cons, hc, Cell.width_append,
    Nat.add_assoc]
  cases clause <;> rfl

theorem readsFront_else (gaps : Gaps) : ReadsFront '{' (elseWord ++ gaps.print) [] := by
  intro braces position rest
  have helse : IsElse (laid position (elseWord ++ (gaps.print ++ '{' :: rest))) :=
    ⟨_, _, gaps, rfl, .inl rfl⟩
  refine ⟨[], ?_, Finds.nil (Nat.le_add_right _ _)⟩
  rw [List.append_assoc, localsFrom, Delimiter.headsFrom_name nested_ne_topLevelLines isName_else,
    List.filterMap_cons_none helse.local?, Delimiter.headsFrom_plain nested_ne_topLevelLines
      gaps.isPlain, Cell.width_append, Nat.add_assoc, List.nil_append]

/-- The `if` after an `else` starts no statement of its own. -/
theorem Guard.readsFront_else (guard : Guard) (gap : Gap) (between : Gaps) :
    ReadsFront '{' (elseWord ++ (Gaps.print (gap :: between) ++ (ifWord ++ guard.print))) [] := by
  intro braces position rest
  have hif : Delimiter.IsPlain ifWord := Delimiter.isPlain_of_isName isName_if
  have helse : IsElse (laid position (elseWord ++ (Gaps.print (gap :: between) ++
      (ifWord ++ (guard.print ++ '{' :: rest))))) :=
    ⟨_, _, gap :: between, rfl, .inr ⟨List.cons_ne_nil _ _, rfl⟩⟩
  refine ⟨[], ?_, Finds.nil (Nat.le_add_right _ _)⟩
  simp only [List.append_assoc]
  rw [localsFrom, Delimiter.headsFrom_name nested_ne_topLevelLines isName_else,
    List.filterMap_cons_none helse.local?,
    Delimiter.headsFrom_plain nested_ne_topLevelLines (Gaps.isPlain _),
    Delimiter.headsFrom_plain nested_ne_topLevelLines hif, guard.headsFrom nested_ne_topLevelLines]
  simp only [Cell.width_append, Nat.add_assoc, List.nil_append]

theorem ReadsFront.semicolon {front : List Char} {own : List Variable}
    (h : ReadsFront ';' front own) : ReadsLocals (front ++ [';']) own := by
  intro braces position rest
  obtain ⟨found, he, hf⟩ := h braces position rest
  have hw : width (front ++ [';']) = width front + 1 := by
    rw [Cell.width_append, Cell.width_cons_ascii (by decide), Cell.width_nil]
  rw [hw]
  refine ⟨found, ?_, hf.mono (Nat.le_refl _) (Nat.le_succ _)⟩
  rw [List.append_assoc, List.singleton_append, he, Delimiter.headsFrom_semicolon_laid (.inl rfl)]
  rfl

theorem ReadsFront.braced {front body : List Char} {own inner : List Variable}
    (h : ReadsFront '{' front own) (hb : ReadsLocals body inner) :
    ReadsLocals (front ++ '{' :: (body ++ ['}'])) (own ++ inner) := by
  intro braces position rest
  obtain ⟨found, he, hf⟩ := h braces position (body ++ '}' :: rest)
  obtain ⟨inside, hi, hin⟩ := hb.inBraces braces (position + width front) rest
  have hw : position + width (front ++ '{' :: (body ++ ['}'])) =
      position + width front + 1 + width body + 1 := by
    simp only [Cell.width_append, Cell.width_cons_ascii (c := '{') (by decide),
      Cell.width_cons_ascii (c := '}') (by decide), Cell.width_nil]
    omega
  rw [hw]
  refine ⟨found ++ inside, ?_, hf.append hin⟩
  simp only [List.append_assoc, List.cons_append, List.nil_append]
  rw [he, hi]

mutual

/-- In a statement just its own variables are found. -/
theorem Statement.readsLocals (statement : Statement) (h : statement.isOrdinary) :
    ReadsLocals statement.print statement.variables := by
  cases statement with
  | declaration declared => exact declared.readsFront.semicolon
  | call called gaps =>
    rw [Statement.print, ← List.append_assoc]
    exact (called.readsFront gaps).semicolon
  | result given =>
    rw [Statement.print, ← List.append_assoc]
    exact given.readsFront.semicolon
  | conditional guard body alternative =>
    rw [Statement.isOrdinary, Bool.and_eq_true] at h
    have hfront := guard.readsFront isName_if (by decide) (by decide)
    have hall := (hfront.braced (body.readsLocals h.1)).append (alternative.readsLocals h.2)
    simp only [List.append_assoc, List.cons_append, List.nil_append] at hall
    exact hall
  | forLoop header body =>
    rw [Statement.isOrdinary, Bool.and_eq_true] at h
    have hall := (header.readsFront h.1).braced (body.readsLocals h.2)
    rw [List.append_assoc] at hall
    exact hall
  | whileLoop guard body =>
    have hfront := guard.readsFront isName_while (by decide) (by decide)
    have hall := hfront.braced (body.readsLocals h)
    rw [List.append_assoc] at hall
    exact hall

theorem Alternative.readsLocals (alternative : Alternative) (h : alternative.isOrdinary) :
    ReadsLocals alternative.print alternative.variables := by
  cases alternative with
  | none => exact ReadsLocals.nil
  | chain before gap between guard body alternative =>
    rw [Alternative.isOrdinary, Bool.and_eq_true] at h
    have hbody := (guard.readsFront_else gap between).braced (body.readsLocals h.1)
    have hall := (readsLocals_space before).append (hbody.append (alternative.readsLocals h.2))
    simp only [List.append_assoc, List.cons_append, List.nil_append] at hall
    exact hall
  | block before between body =>
    have hbody := (readsFront_else between).braced (body.readsLocals h)
    have hall := (readsLocals_space before).append hbody
    rw [List.append_assoc] at hall
    exact hall

theorem Block.readsLocals (block : Block) (h : block.isOrdinary) :
    ReadsLocals block.print block.variables := by
  cases block with
  | done gaps => exact readsLocals_space gaps
  | cons gaps statement block =>
    rw [Block.isOrdinary, Bool.and_eq_true] at h
    exact (readsLocals_space gaps).append
      ((statement.readsLocals h.1).append (block.readsLocals h.2))

end

end Program

end CodeOutline
