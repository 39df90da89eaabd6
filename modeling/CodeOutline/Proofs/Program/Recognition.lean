import CodeOutline.Proofs.Outline.Content
import CodeOutline.Proofs.Outline.Opening
import CodeOutline.Proofs.Program.Heading

namespace CodeOutline

open Cell (layout width)
open Slice (laid laid_text)
open Delimiter (IsNested IsPlain)

namespace Program

open Outline (below level conditional? statement? statements body? alternative? forLoop? whileLoop?)

variable {position levels : Nat} {rest tail : List Char}

/-- No `else` follows. -/
def NotElse (tail : List Char) : Prop :=
  ∀ position, ((laid position tail).next?.bind (Slice.after? "else")) = none

/-- What an `else` is read as: nothing, or the given branch. -/
def Follows (levels : Nat) (slice : Slice) (trees : List (Tree Content)) (tail : List Char) :
    Prop :=
  ((slice.next?.bind (Slice.after? "else")).bind (alternative? levels (below levels)) = none ∧
      trees = [] ∧ ∃ q, slice = laid q tail) ∨
    ∃ outline q, (slice.next?.bind (Slice.after? "else")).bind
        (alternative? levels (below levels)) = some (outline, laid q tail) ∧
      trees = [outline.map Item.content]

/-- The statements in a printed body are those of the body. -/
def ReadsBlock (levels : Nat) (body : Block) : Prop :=
  ∀ position, ((level levels).block (laid position body.print)).map (Tree.map Item.content) =
    body.trees

theorem body?_block {body : Block} (hb : ReadsBlock levels body) (relation : Relation)
    (gaps : Gaps) (position : Nat) (rest : List Char) :
    ∃ outline q, body? (levels + 1) (below (levels + 1)) relation
        (laid position (gaps.print ++ '{' :: (body.print ++ '}' :: rest))) =
          some (outline, laid q rest) ∧
      outline.map Item.content = .node ⟨.blockStatement, relation, none, none⟩ body.trees := by
  refine ⟨_, _, Outline.body?_laid _ _ relation gaps.isAsciiSpace body.isNested, ?_⟩
  rw [Tree.map_node, hb]
  rfl

theorem conditional?_laid (guard : Guard) {body : Block} {trees : List (Tree Content)}
    (hb : ReadsBlock levels body) (hf : ∀ q, Follows (levels + 1) (laid q rest) trees tail)
    (position : Nat) :
    ∃ outline q, conditional? (levels + 1) (below (levels + 1))
        (laid position (ifWord ++ (guard.print ++ '{' :: (body.print ++ '}' :: rest)))) =
          some (outline, laid q tail) ∧
      outline.map Item.content = conditionalTree .statement guard body.trees trees := by
  obtain ⟨q, q', hh⟩ := guard.heading? position ('{' :: (body.print ++ '}' :: rest)) isName_if
  obtain ⟨consequent, q'', hbody, hcontent⟩ := body?_block hb .consequent guard.after q' rest
  have hword : String.ofList ifWord = "if" := rfl
  have hcond := guard.condition.fragment?_laid q
  rw [conditional?, hh, Option.bind_some]
  simp only [laid_text, hword, if_true, hbody]
  rcases hf q'' with ⟨hnone, rfl, p, hp⟩ | ⟨alternative, p, hsome, rfl⟩
  · rw [hnone, hp]
    refine ⟨_, p, rfl, ?_⟩
    simp only [Tree.map_node, List.map_cons, List.map_nil, Outline.leaf_content, hcond, hcontent]
    rfl
  · rw [hsome]
    refine ⟨_, p, rfl, ?_⟩
    simp only [Tree.map_node, List.map_cons, List.map_nil, Outline.leaf_content, hcond, hcontent]
    rfl

theorem statement?_of_heading?_none {slice : Slice} (h : slice.heading? = none) :
    statement? levels (below levels) slice =
      ((Declaration.read? slice).map (Outline.ofDeclaration .statement)).or
        (Outline.return? slice) := by
  simp only [statement?, conditional?, forLoop?, whileLoop?, Outline.callStatement?, h,
    Option.bind_none, Option.map_none, Option.none_or, Option.or_none]

theorem statement?_declaration (declared : Variable) :
    (statement? levels (below levels) (laid position (declared.print ++ ';' :: rest))).map
      (Tree.map Item.content) = some (declared.tree .statement) := by
  rw [statement?, declared.read?_laid, Option.map_some, Option.some_or, Option.map_some,
    declared.content]

theorem statement?_isElse {head : Slice} (h : IsElse head) :
    statement? levels (below levels) head = none := by
  obtain ⟨hh, hread, hreturn⟩ := h.spec
  rw [statement?_of_heading?_none hh, hread, Outline.return?, hreturn]
  rfl

theorem statement?_result (given : Result) :
    (statement? levels (below levels) (laid position (returnWord ++
      (given.print ++ ';' :: rest)))).map (Tree.map Item.content) = some given.tree := by
  rw [statement?_of_heading?_none given.heading?, given.read?]
  exact given.return?_laid

theorem statement?_call (called : Call) (gaps : Gaps) :
    (statement? levels (below levels) (laid position (called.print ++
      (gaps.print ++ ';' :: rest)))).map (Tree.map Item.content) = some (called.tree .statement) := by
  have hk := called.name.not_isKeyword
  have hne (word : String) (hw : Keyword.isKeyword word) : called.name.text ≠ word := by
    intro he
    rw [he, hw] at hk
    cases hk
  simp only [Identifier.text] at hk hne
  have hreturn : Outline.return? (laid position (called.print ++ (gaps.print ++ ';' :: rest))) =
      none := by
    rw [called.print_append, Outline.return?, Slice.after?_laid_none called.name.isName
      (hne "return" (by decide))]
    · rfl
    · exact called.gaps.not_isWord_head fun c hc => by cases hc; rfl
  have hsemicolon {q : Nat} : (laid q (gaps.print ++ ';' :: rest)).skipBlank.startsWith ';' =
      true := by
    rw [Slice.skipBlank_laid gaps.isAsciiSpace (by intro c hc; cases hc; rfl)]
    exact Slice.startsWith_laid (by decide)
  simp only [statement?, called.read?, conditional?, forLoop?, whileLoop?, Outline.callStatement?,
    called.heading?, hreturn, laid_text, hk, hne "if" (by decide), hne "for" (by decide),
    hne "while" (by decide), Option.bind_some, Option.map_none, Option.none_or, if_false,
    false_and, Bool.false_eq_true, hsemicolon, if_true, Option.map_some, called.content]

theorem statement?_conditional {guard : Guard} {outline : Outline} {after : Slice}
    (h : conditional? levels (below levels) (laid position (ifWord ++ (guard.print ++ rest))) =
      some (outline, after)) :
    statement? levels (below levels) (laid position (ifWord ++ (guard.print ++ rest))) =
      some outline := by
  rw [statement?, guard.read? position rest isName_if (by decide), h]
  rfl

theorem Header.leaves (header : Header) (position : Nat) :
    [Outline.leaf .initialization .init
        (((laid position header.inner).split 0x3B)[0]?.getD ⟨(laid position header.inner).stop, []⟩),
      Outline.leaf .test .test
        (((laid position header.inner).split 0x3B)[1]?.getD ⟨(laid position header.inner).stop, []⟩),
      Outline.leaf .update .update
        (((laid position header.inner).split 0x3B)[2]?.getD
          ⟨(laid position header.inner).stop, []⟩)].map (Tree.map Item.content) = header.trees := by
  have hs := Slice.split_semicolon position header.init.print
    [header.test.print, header.update.print] header.pieces_isPlain
  have hi : header.inner = Delimiter.joined ';'
    [header.init.print, header.test.print, header.update.print] := rfl
  rw [hi, hs]
  simp only [Slice.laidAll, List.getElem?_cons_zero, List.getElem?_cons_succ, Option.getD_some,
    List.map_cons, List.map_nil, Outline.leaf_content, header.init.fragment?_laid,
    header.test.fragment?_laid, header.update.fragment?_laid]
  rfl

theorem statement?_forLoop {body : Block} (hb : ReadsBlock levels body) (header : Header)
    (position : Nat) :
    (statement? (levels + 1) (below (levels + 1)) (laid position (forWord ++ (header.print ++
      '{' :: (body.print ++ '}' :: rest))))).map (Tree.map Item.content) =
        some (Statement.forLoop header body).tree := by
  have hread := header.read? position ('{' :: (body.print ++ '}' :: rest)) isName_for (by decide)
  obtain ⟨q', hh⟩ := header.heading? position ('{' :: (body.print ++ '}' :: rest)) isName_for
  obtain ⟨outline, q'', hbody, hcontent⟩ := body?_block hb .body header.after q' rest
  have hword : (laid position forWord).text = "for" := laid_text ..
  have hconditional := Outline.conditional?_of_ne hh (by rw [laid_text]; decide) (levels + 1)
    (below (levels + 1))
  rw [statement?, hread, hconditional, forLoop?, hh, Option.bind_some, if_pos hword]
  simp only [hbody, Option.map_none, Option.none_or, Option.map_some, Option.some_or, Tree.map_node,
    List.map_append, header.leaves, List.map_cons, List.map_nil, hcontent]
  rfl

theorem statement?_whileLoop {body : Block} (hb : ReadsBlock levels body) (guard : Guard)
    (position : Nat) :
    (statement? (levels + 1) (below (levels + 1)) (laid position (whileWord ++ (guard.print ++
      '{' :: (body.print ++ '}' :: rest))))).map (Tree.map Item.content) =
        some (Statement.whileLoop guard body).tree := by
  have hread := guard.read? position ('{' :: (body.print ++ '}' :: rest)) isName_while (by decide)
  obtain ⟨q, q', hh⟩ := guard.heading? position ('{' :: (body.print ++ '}' :: rest)) isName_while
  obtain ⟨outline, q'', hbody, hcontent⟩ := body?_block hb .body guard.after q' rest
  have hopen : (laid q' (guard.after.print ++ '{' :: (body.print ++
      '}' :: rest))).skipBlank.startsWith ';' = false := by
    rw [Slice.skipBlank_laid guard.after.isAsciiSpace (by intro c hc; cases hc; rfl)]
    exact Slice.not_startsWith_laid (by decide) (by intro c hc; cases hc; decide)
  have hword : (laid position whileWord).text = "while" := laid_text ..
  have hconditional := Outline.conditional?_of_ne hh (by rw [laid_text]; decide) (levels + 1)
    (below (levels + 1))
  have hfor := Outline.forLoop?_of_ne hh (by rw [laid_text]; decide) (levels + 1)
    (below (levels + 1))
  rw [statement?, hread, hconditional, hfor, whileLoop?, hh, Option.bind_some,
    if_pos ⟨hword, by rw [hopen]; rfl⟩]
  simp only [hbody, Option.map_none, Option.none_or, Option.map_some, Option.some_or, Tree.map_node,
    List.map_cons, List.map_nil, Outline.leaf_content, guard.condition.fragment?_laid, hcontent]
  rfl

theorem TypeName.exists_mark (type : TypeName) (rest : List Char) : ∃ mark others,
    TypeName.tail type.more ++ (type.last.print ++ rest) = Mark.char mark :: others := by
  obtain ⟨head, more, last⟩ := type
  cases more with
  | nil => exact ⟨last.first, _, rfl⟩
  | cons unit more => exact ⟨unit.1.first, _, rfl⟩

/-- A statement begins with a word that is not `else`. -/
theorem Statement.exists_word (statement : Statement) (rest : List Char) : ∃ word others,
    statement.print ++ rest = word ++ others ∧ CharClass.IsName word ∧
      String.ofList word ≠ "else" ∧ ∀ c ∈ others.head?, CharClass.isWord c = false := by
  have hne (word : Identifier) : String.ofList word.chars ≠ "else" := by
    intro he
    have hk := word.not_isKeyword
    rw [Identifier.text, he] at hk
    revert hk
    decide
  cases statement with
  | declaration declared =>
    obtain ⟨mark, others, he⟩ := declared.type.exists_mark (declared.name.chars ++
      (declared.gaps.print ++ (printInitializer declared.initializer ++ ';' :: rest)))
    refine ⟨declared.type.head.chars, mark.char :: others, ?_, declared.type.head.isName,
      hne declared.type.head, ?_⟩
    · rw [Statement.print_declaration, Variable.print, TypeName.print, ← he]
      simp only [List.append_assoc]
    · intro c hc
      cases hc
      exact mark.spec.2.1
  | call called gaps =>
    refine ⟨called.name.chars, called.gaps.print ++ '(' :: (called.inner ++
      ')' :: (gaps.print ++ ';' :: rest)), ?_, called.name.isName, hne called.name, ?_⟩
    · rw [Statement.print_call, called.print_append]
    · exact called.gaps.not_isWord_head fun c hc => by cases hc; rfl
  | result given =>
    exact ⟨returnWord, _, Statement.print_result rest given, isName_return, by decide, given.head?⟩
  | conditional guard body alternative =>
    exact ⟨ifWord, _, Statement.print_conditional rest guard body alternative, isName_if,
      by decide, guard.head? _⟩
  | forLoop header body =>
    exact ⟨forWord, _, Statement.print_forLoop rest header body, isName_for, by decide,
      header.head? _⟩
  | whileLoop guard body =>
    exact ⟨whileWord, _, Statement.print_whileLoop rest guard body, isName_while, by decide,
      guard.head? _⟩

theorem Block.notElse (block : Block) : NotElse block.print := by
  intro position
  cases block with
  | done gaps =>
    rw [Block.print, Slice.next?_laid_none gaps.isAsciiSpace]
    rfl
  | cons gaps statement block =>
    obtain ⟨word, others, he, ⟨c, word', rfl, hc, hw⟩, hne, hr⟩ :=
      statement.exists_word block.print
    have hs := CharClass.isAsciiSpace_of_isNameChar (CharClass.isNameChar_of_isWordStart hc)
    rw [Block.print, he, List.cons_append, Slice.next?_laid gaps.isAsciiSpace hs, Option.bind_some,
      ← List.cons_append, Slice.after?_laid_none ⟨c, word', rfl, hc, hw⟩ hne hr]

theorem follows_block {body : Block} (hb : ReadsBlock levels body) (before between : Gaps)
    (position : Nat) :
    Follows (levels + 1) (laid position ((Alternative.block before between body).print ++ tail))
      (Alternative.block before between body).trees tail := by
  obtain ⟨outline, q, hbody, hcontent⟩ := body?_block hb .alternative between
    (position + width before.print + width elseWord) tail
  have hw : ∀ c ∈ (between.print ++ '{' :: (body.print ++ '}' :: tail)).head?,
      CharClass.isWord c = false :=
    between.not_isWord_head fun c hc => by cases hc; rfl
  have hnext : (laid position (before.print ++ (elseWord ++ (between.print ++
      '{' :: (body.print ++ '}' :: tail))))).next? = some (laid (position + width before.print)
        (elseWord ++ (between.print ++ '{' :: (body.print ++ '}' :: tail)))) :=
    Slice.next?_laid before.isAsciiSpace (by decide)
  have hnone {q : Nat} : conditional? levels (below levels)
      (laid q ('{' :: (body.print ++ '}' :: tail))) = none := by
    have hh : (laid q ('{' :: (body.print ++ '}' :: tail))).heading? = none := by
      apply Slice.heading?_none
      intro name after h
      rw [Slice.word?_laid_none (by intro c hc; cases hc; rfl)] at h
      cases h
    rw [conditional?, hh]
    rfl
  right
  refine ⟨outline, q, ?_, ?_⟩
  · have hc : (laid (position + width before.print + width elseWord) (between.print ++
        '{' :: (body.print ++ '}' :: tail))).next?.bind (level levels).conditional? = none := by
      rw [Slice.next?_laid between.isAsciiSpace (by decide), Option.bind_some,
        Outline.level_conditional?, hnone]
    rw [Alternative.print_block, hnext, Option.bind_some,
      Slice.after?_laid isName_else (by decide) hw, Option.bind_some, alternative?]
    simp only [below, Option.bind_some, hc]
    exact hbody
  · rw [Alternative.trees, hcontent]

theorem relabel_content {outline : Outline} {guard : Guard} {body trees : List (Tree Content)}
    (h : outline.map Item.content = conditionalTree .statement guard body trees) :
    (outline.relabel fun item => { item with relation := .alternative }).map Item.content =
      conditionalTree .alternative guard body trees := by
  obtain ⟨item, children⟩ := outline
  rw [Tree.map_node, conditionalTree, Tree.node.injEq] at h
  rw [Tree.relabel, Tree.map_node, conditionalTree, Tree.node.injEq]
  refine ⟨?_, h.2⟩
  have hi := h.1
  simp only [Item.content, Content.mk.injEq] at hi ⊢
  exact ⟨hi.1, trivial, hi.2.2⟩

/-- After an `else` a conditional is read one level down. -/
theorem follows_chain {guard : Guard} {body : Block} {trees : List (Tree Content)}
    (h : ∀ q, ∃ outline q', conditional? levels (below levels) (laid q (ifWord ++ (guard.print ++
        '{' :: (body.print ++ '}' :: rest)))) = some (outline, laid q' tail) ∧
      outline.map Item.content = conditionalTree .statement guard body.trees trees)
    (before : Gaps) (gap : Gap) (between : Gaps) (position : Nat) :
    Follows (levels + 1) (laid position (before.print ++ (elseWord ++
      (Gaps.print (gap :: between) ++ (ifWord ++ (guard.print ++
        '{' :: (body.print ++ '}' :: rest))))))) [conditionalTree .alternative guard body.trees trees]
      tail := by
  obtain ⟨outline, q, hread, hcontent⟩ := h (position + width before.print + width elseWord +
    width (Gaps.print (gap :: between)))
  have hnext : (laid position (before.print ++ (elseWord ++ (Gaps.print (gap :: between) ++
      (ifWord ++ (guard.print ++ '{' :: (body.print ++ '}' :: rest))))))).next? =
      some (laid (position + width before.print) (elseWord ++ (Gaps.print (gap :: between) ++
        (ifWord ++ (guard.print ++ '{' :: (body.print ++ '}' :: rest)))))) :=
    Slice.next?_laid before.isAsciiSpace (by decide)
  have hnext' {q : Nat} : (laid q (Gaps.print (gap :: between) ++ (ifWord ++ (guard.print ++
      '{' :: (body.print ++ '}' :: rest))))).next? = some (laid (q + width
        (Gaps.print (gap :: between))) (ifWord ++ (guard.print ++
          '{' :: (body.print ++ '}' :: rest)))) :=
    Slice.next?_laid (Gaps.isAsciiSpace _) (by decide)
  right
  refine ⟨outline.relabel fun item => { item with relation := .alternative }, q, ?_, ?_⟩
  · have hc : (laid (position + width before.print + width elseWord) (Gaps.print (gap :: between) ++
        (ifWord ++ (guard.print ++ '{' :: (body.print ++ '}' :: rest))))).next?.bind
          (level levels).conditional? = some (outline, laid q tail) := by
      rw [hnext', Option.bind_some, Outline.level_conditional?, hread]
    rw [hnext, Option.bind_some, Slice.after?_laid isName_else (by decide), Option.bind_some,
      alternative?]
    · simp only [below, Option.bind_some, hc]
    · intro c hc
      cases hc
      exact gap.isWord_char
  · rw [relabel_content hcontent]

mutual

theorem Statement.recognised (statement : Statement) (levels : Nat)
    (h : statement.nesting ≤ levels) (tail : List Char) (hn : NotElse tail) (position : Nat) :
    (statement? levels (below levels) (laid position (statement.print ++ tail))).map
      (Tree.map Item.content) = some statement.tree := by
  cases statement with
  | declaration declared =>
    rw [Statement.print_declaration]
    exact statement?_declaration declared
  | call called gaps =>
    rw [Statement.print_call]
    exact statement?_call called gaps
  | result given =>
    rw [Statement.print_result]
    exact statement?_result given
  | conditional guard body alternative =>
    simp only [Statement.nesting, Nat.max_le] at h
    cases levels with
    | zero => omega
    | succ levels =>
      obtain ⟨outline, q, hread, hcontent⟩ := conditional?_laid guard
        (body.reads levels (Nat.le_of_succ_le_succ h.1))
        (alternative.recognised (levels + 1) h.2 tail hn) position
      rw [Statement.print_conditional, statement?_conditional hread, Option.map_some, hcontent,
        Statement.tree]
  | forLoop header body =>
    rw [Statement.nesting] at h
    cases levels with
    | zero => omega
    | succ levels =>
      rw [Statement.print_forLoop]
      exact statement?_forLoop (body.reads levels (Nat.le_of_succ_le_succ h)) header position
  | whileLoop guard body =>
    rw [Statement.nesting] at h
    cases levels with
    | zero => omega
    | succ levels =>
      rw [Statement.print_whileLoop]
      exact statement?_whileLoop (body.reads levels (Nat.le_of_succ_le_succ h)) guard position

theorem Alternative.recognised (alternative : Alternative) (levels : Nat)
    (h : alternative.nesting ≤ levels) (tail : List Char) (hn : NotElse tail) (position : Nat) :
    Follows levels (laid position (alternative.print ++ tail)) alternative.trees tail := by
  cases alternative with
  | none =>
    left
    exact ⟨by rw [Alternative.print, List.nil_append, hn]; rfl, rfl, position, rfl⟩
  | chain before gap between guard body alternative =>
    simp only [Alternative.nesting] at h
    match levels, h with
    | levels + 2, h =>
      have hb := body.reads levels (by omega)
      have hf := alternative.recognised (levels + 1) (by omega) tail hn
      rw [Alternative.print_chain, Alternative.trees]
      exact follows_chain (conditional?_laid guard hb hf) before gap between position
    | 1, h => omega
    | 0, h => omega
  | block before between body =>
    rw [Alternative.nesting] at h
    cases levels with
    | zero => omega
    | succ levels =>
      exact follows_block (body.reads levels (Nat.le_of_succ_le_succ h)) before between position

theorem Block.recognised (block : Block) (levels : Nat) (h : block.nesting ≤ levels)
    (position : Nat) :
    ((Delimiter.headsFrom .topLevel 0 0 true position (layout block.print)).filterMap
      (statement? levels (below levels))).map (Tree.map Item.content) = block.trees := by
  have hm : Boundaries.topLevel ≠ .topLevelLines := by decide
  cases block with
  | done gaps =>
    rw [Block.print, ← List.append_nil gaps.print, headsFrom_space hm]
    rfl
  | cons gaps statement block =>
    rw [Block.nesting, Nat.max_le] at h
    obtain ⟨extra, next, he, hx⟩ := statement.heads (position + width gaps.print) block.print
    have hextra : extra.filterMap (statement? levels (below levels)) = [] :=
      List.filterMap_eq_nil_iff.2 fun head hh => statement?_isElse (hx head hh)
    have hstatement := statement.recognised levels h.1 block.print block.notElse
      (position + width gaps.print)
    obtain ⟨outline, hread, hcontent⟩ := Option.map_eq_some_iff.1 hstatement
    rw [Block.print, headsFrom_space hm, he, List.filterMap_cons_some hread,
      List.filterMap_append, hextra, List.nil_append, List.map_cons, hcontent,
      block.recognised levels h.2 next, Block.trees]

theorem Block.reads (block : Block) (levels : Nat) (h : block.nesting ≤ levels) :
    ReadsBlock levels block := by
  intro position
  rw [Outline.level_block, statements, Slice.filterMap_statementStarts]
  exact block.recognised levels h position

end

end Program

end CodeOutline
