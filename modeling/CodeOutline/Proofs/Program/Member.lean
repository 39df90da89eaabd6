import CodeOutline.Proofs.Program.Heads
import CodeOutline.Proofs.Program.Parameter
import Mathlib.Data.List.Pairwise

namespace CodeOutline.Program

open Cell (layout width)
open Slice (laid laid_start laid_text)
open Delimiter (IsNested)

variable {position : Nat} {rest : List Char}

/-- The printed definition up to the brace that opens its body. -/
def Function.front (defined : Function) : List Char :=
  defined.type.print ++ (defined.name.chars ++ (defined.gaps.print ++
    '(' :: (defined.list ++ ')' :: defined.after.print)))

theorem Function.print_append (defined : Function) (rest : List Char) :
    defined.print ++ rest = defined.front ++ '{' :: (defined.body.print ++ '}' :: rest) := by
  simp only [Function.print, Function.front, List.append_assoc, List.cons_append, List.nil_append]

/-- What is recognised of a function that is printed at the position. -/
def Function.definition (position : Nat) (defined : Function) : FunctionDefinition where
  start := position
  returnType := defined.type.text
  name := defined.name.text
  nameOffset := position + width defined.type.print
  parameters := parametersFrom (position + width (defined.type.print ++ (defined.name.chars ++
    defined.gaps.print)) + 1 + width defined.inside.print) defined.formals
  opening := position + width defined.front
  closing := some (position + width defined.front + 1 + width defined.body.print)
  body := laid (position + width defined.front + 1) defined.body.print

theorem Function.front_append (defined : Function) (rest : List Char) :
    defined.front ++ rest = defined.type.print ++ (defined.name.chars ++ (defined.gaps.print ++
      '(' :: (defined.list ++ ')' :: (defined.after.print ++ rest)))) := by
  simp only [Function.front, List.append_assoc, List.cons_append]

theorem Function.read?_laid (defined : Function) :
    FunctionDefinition.read? (laid position (defined.print ++ rest)) =
      some (defined.definition position) := by
  let text := '{' :: (defined.body.print ++ '}' :: rest)
  have hread : Declarator.read? (laid position (defined.print ++ rest)) =
      some ⟨laid position defined.type.print,
        laid (position + width defined.type.print) defined.name.chars,
        laid (position + width (defined.type.print ++ defined.name.chars)) (defined.gaps.print ++
          '(' :: (defined.list ++ ')' :: (defined.after.print ++ text)))⟩ := by
    rw [defined.print_append, defined.front_append]
    exact defined.type.read?_laid defined.name defined.gaps rfl rfl
  have hlist : (laid (position + width (defined.type.print ++ defined.name.chars))
      (defined.gaps.print ++ '(' :: (defined.list ++ ')' :: (defined.after.print ++ text)))).skipSpace =
        laid (position + width (defined.type.print ++ (defined.name.chars ++ defined.gaps.print)))
          ('(' :: (defined.list ++ ')' :: (defined.after.print ++ text))) := by
    rw [Slice.skipSpace_laid defined.gaps.isSpace]
    · simp only [Cell.width_append, Nat.add_assoc]
    · intro c hc
      cases hc
      rfl
  have hfront : position + width (defined.type.print ++ (defined.name.chars ++
      defined.gaps.print)) + 1 + width defined.list + 1 + width defined.after.print =
        position + width defined.front := by
    simp only [Function.front, Cell.width_append, Cell.width_cons_ascii (c := '(') (by decide),
      Cell.width_cons_ascii (c := ')') (by decide)]
    omega
  have hbraced : (laid (position + width (defined.type.print ++ (defined.name.chars ++
      defined.gaps.print)) + 1 + width defined.list + 1)
        (defined.after.print ++ text)).skipBlank = laid (position + width defined.front) text := by
    rw [Slice.skipBlank_laid defined.after.isAsciiSpace, hfront]
    intro c hc
    cases hc
    rfl
  rw [FunctionDefinition.read?, hread, Option.bind_some]
  simp only [hlist, Slice.startsWith_laid (c := '(') (by decide), if_true,
    Slice.block?_laid .parens defined.isNested_list, Option.bind_some, hbraced]
  simp only [text, Slice.startsWith_laid (c := '{') (by decide), if_true,
    Slice.block?_laid .braces defined.body.isNested,
    Slice.close?_laid .braces defined.body.isNested, laid_start, laid_text, TypeName.trim_print,
    defined.readList, Function.definition, Identifier.text]

theorem Function.declaration?_none (defined : Function) :
    Declaration.read? (laid position (defined.print ++ rest)) = none := by
  have h := read?_name position defined.type defined.name defined.gaps '(' (defined.list ++
    ')' :: (defined.after.print ++ '{' :: (defined.body.print ++ '}' :: rest))) (by decide) rfl rfl
    (by decide)
  simp only at h
  rw [defined.print_append, defined.front_append, h,
    Slice.not_startsWith_laid (by decide) (by simp), Slice.not_startsWith_laid (by decide) (by simp)]
  rfl

theorem Variable.function?_none (declared : Variable) :
    FunctionDefinition.read? (laid position (declared.print ++ ';' :: rest)) = none := by
  obtain ⟨d, tail, hp, hw, hs, hb⟩ : ∃ d tail, declared.print ++ ';' :: rest = declared.type.print ++
      (declared.name.chars ++ (declared.gaps.print ++ d :: tail)) ∧ CharClass.isWord d = false ∧
        Declarator.isSeparator d = false ∧ d ≠ '(' := by
    obtain ⟨type, name, gaps, initializer⟩ := declared
    cases initializer with
    | none =>
      refine ⟨';', rest, ?_, rfl, rfl, by decide⟩
      simp only [Variable.print, printInitializer, List.append_assoc, List.nil_append]
    | some phrase =>
      refine ⟨'=', phrase.print ++ ';' :: rest, ?_, rfl, rfl, by decide⟩
      simp only [Variable.print, printInitializer, List.append_assoc, List.cons_append]
  have hspace : CharClass.isSpace d = false := (Bool.or_eq_false_iff.1 hs).1
  have hskip (position : Nat) : (laid position (declared.gaps.print ++ d :: tail)).skipSpace =
      laid (position + width declared.gaps.print) (d :: tail) :=
    Slice.skipSpace_laid declared.gaps.isSpace (by simpa using hspace)
  have hstart (position : Nat) : (laid position (d :: tail)).startsWith '(' = false :=
    Slice.not_startsWith_laid (by decide) (by simpa using hb)
  rw [hp, FunctionDefinition.read?, declared.type.read?_laid declared.name declared.gaps hw hs,
    Option.bind_some]
  simp only [hskip, hstart, Bool.false_eq_true, if_false]

end CodeOutline.Program

namespace CodeOutline

open Cell (layout width)
open Slice (laid)

namespace Program

open Delimiter (headsFrom Separates)

variable {position : Nat} {rest : List Char}

theorem Function.headsFrom (defined : Function) :
    headsFrom .topLevel 0 0 true position (layout (defined.print ++ rest)) =
      laid position (defined.print ++ rest) ::
        headsFrom .topLevel 0 0 true (position + width defined.print) (layout rest) := by
  have hm : Boundaries.topLevel ≠ .topLevelLines := by decide
  have hp : defined.print ++ rest = defined.type.head.chars ++
      ((TypeName.tail defined.type.more ++ (defined.type.last.print ++ defined.name.chars)) ++
        (defined.gaps.print ++ '(' :: (defined.list ++ ')' :: (defined.after.print ++
          '{' :: (defined.body.print ++ '}' :: rest))))) := by
    rw [defined.print_append, defined.front_append]
    simp only [TypeName.print, List.append_assoc]
  have hplain := (TypeName.isPlain_tail defined.type.more).append
    (defined.type.last.isPlain.append defined.name.isPlain)
  rw [hp, Delimiter.headsFrom_name hm defined.type.head.isName,
    Delimiter.headsFrom_plain hm hplain,
    headsFrom_heading hm defined.gaps defined.after defined.isNested_list,
    Delimiter.headsFrom_braces_laid defined.body.isNested]
  congr 2
  simp only [Function.print, TypeName.print, Cell.width_append,
    Cell.width_cons_ascii (c := '(') (by decide), Cell.width_cons_ascii (c := ')') (by decide),
    Cell.width_cons_ascii (c := '{') (by decide), Cell.width_cons_ascii (c := '}') (by decide),
    Cell.width_nil]
  omega

theorem Member.headsFrom (member : Member) :
    headsFrom .topLevel 0 0 true position (layout (member.print ++ rest)) =
      laid position (member.print ++ rest) ::
        headsFrom .topLevel 0 0 true (position + width member.print) (layout rest) := by
  cases member with
  | declaration declared =>
    have hm : Boundaries.topLevel ≠ .topLevelLines := by decide
    have hp : Member.print (.declaration declared) ++ rest = declared.print ++ ';' :: rest := by
      rw [Member.print, List.append_assoc]
      rfl
    rw [hp, declared.headsFrom hm, Delimiter.headsFrom_semicolon_laid (.inr ⟨rfl, rfl⟩),
      Member.print, Cell.width_append, ← Nat.add_assoc]
    rfl
  | function defined => exact defined.headsFrom

theorem Member.print_ne_nil (member : Member) : member.print ≠ [] := by
  cases member with
  | declaration declared => exact List.append_ne_nil_of_right_ne_nil _ (List.cons_ne_nil _ _)
  | function defined =>
    exact List.append_ne_nil_of_left_ne_nil
      (List.append_ne_nil_of_left_ne_nil defined.type.head.ne_nil _) _

/-- The members with the places they are printed at. -/
def placed (position : Nat) : List (Gaps × Member) → List (Nat × Member)
  | [] => []
  | (gaps, member) :: others =>
    (position + width gaps.print, member) ::
      placed (position + width gaps.print + width member.print) others

theorem printMembers_cons (gaps : Gaps) (member : Member) (others : List (Gaps × Member)) :
    printMembers ((gaps, member) :: others) =
      gaps.print ++ (member.print ++ printMembers others) := by
  rw [printMembers, List.flatMap_cons, List.append_assoc]
  rfl

/-- What is read at the statement starts of a program is what is read of its members. -/
theorem filterMap_heads {α : Type} {read : Slice → Option α} {found : Nat → Member → Option α}
    (h : ∀ position member rest, read (laid position (member.print ++ rest)) =
      found position member) (members : List (Gaps × Member)) (gaps : Gaps) (position : Nat) :
    (headsFrom .topLevel 0 0 true position
        (layout (printMembers members ++ gaps.print))).filterMap read =
      (placed position members).filterMap fun (position, member) => found position member := by
  have hm : Boundaries.topLevel ≠ .topLevelLines := by decide
  induction members generalizing position with
  | nil =>
    have hs : headsFrom .topLevel 0 0 true position (layout (gaps.print ++ [])) = [] :=
      headsFrom_space hm gaps
    rw [List.append_nil] at hs
    rw [printMembers, List.flatMap_nil, List.nil_append, hs]
    rfl
  | cons entry others ih =>
    obtain ⟨before, member⟩ := entry
    rw [printMembers_cons, List.append_assoc, List.append_assoc, headsFrom_space hm,
      member.headsFrom, placed, List.filterMap_cons, List.filterMap_cons, h, ih]

theorem le_of_mem_placed {members : List (Gaps × Member)} {entry : Nat × Member}
    (h : entry ∈ placed position members) : position ≤ entry.1 := by
  induction members generalizing position with
  | nil => cases h
  | cons first others ih =>
    obtain ⟨gaps, member⟩ := first
    rcases List.mem_cons.1 h with rfl | h
    · exact Nat.le_add_right _ _
    · have := ih h
      omega

theorem pairwise_placed (members : List (Gaps × Member)) (position : Nat) :
    (placed position members).Pairwise fun left right =>
      left.1 + width left.2.print ≤ right.1 := by
  induction members generalizing position with
  | nil => exact List.Pairwise.nil
  | cons first others ih =>
    obtain ⟨gaps, member⟩ := first
    exact List.Pairwise.cons (fun entry h => le_of_mem_placed h) (ih _)

theorem width_pos {chars : List Char} (h : chars ≠ []) : 0 < width chars :=
  List.length_pos_iff.2 (Cell.layout_ne_nil h)

theorem pairwise_position (members : List (Gaps × Member)) (position : Nat) :
    (placed position members).Pairwise fun left right => left.1 < right.1 := by
  refine (pairwise_placed members position).imp fun {left right} h => ?_
  have := width_pos left.2.print_ne_nil
  omega

/-- Whether two members do not overlap. -/
def Apart (left right : Nat × Member) : Prop :=
  left.1 + width left.2.print ≤ right.1 ∨ right.1 + width right.2.print ≤ left.1

instance : Std.Symm Apart :=
  ⟨fun _ _ h => h.symm⟩

theorem apart_of_mem_placed {members : List (Gaps × Member)} {left right : Nat × Member}
    (hl : left ∈ placed position members) (hr : right ∈ placed position members)
    (hne : left ≠ right) : Apart left right := by
  have hp : (placed position members).Pairwise Apart :=
    (pairwise_placed members position).imp .inl
  exact hp.forall hl hr hne

def Member.definition? (position : Nat) : Member → Option FunctionDefinition
  | .declaration _ => none
  | .function defined => some (defined.definition position)

def Member.declaration? (position : Nat) : Member → Option Declaration
  | .declaration declared => some (declared.declaration position)
  | .function _ => none

theorem Member.read?_definition (position : Nat) (member : Member) (rest : List Char) :
    FunctionDefinition.read? (laid position (member.print ++ rest)) =
      member.definition? position := by
  cases member with
  | declaration declared =>
    rw [Member.print, List.append_assoc]
    exact declared.function?_none
  | function defined => exact defined.read?_laid

theorem Member.read?_declaration (position : Nat) (member : Member) (rest : List Char) :
    Declaration.read? (laid position (member.print ++ rest)) = member.declaration? position := by
  cases member with
  | declaration declared =>
    rw [Member.print, List.append_assoc]
    exact declared.read?_laid
  | function defined => exact defined.declaration?_none

variable (members : List (Gaps × Member)) (gaps : Gaps)

theorem findAll_laid :
    FunctionDefinition.findAll (laid 0 (printMembers members ++ gaps.print)) =
      (placed 0 members).filterMap fun (position, member) => member.definition? position := by
  rw [FunctionDefinition.findAll, Slice.filterMap_statementStarts]
  exact filterMap_heads Member.read?_definition members gaps 0

theorem mem_definitions {members : List (Gaps × Member)} {function : FunctionDefinition}
    (h : function ∈ (placed position members).filterMap fun (position, member) =>
      member.definition? position) : ∃ start defined,
        (start, .function defined) ∈ placed position members ∧
          function = Function.definition start defined := by
  obtain ⟨⟨start, member⟩, hm, hf⟩ := List.mem_filterMap.1 h
  cases member with
  | declaration declared => cases hf
  | function defined =>
    cases hf
    exact ⟨start, defined, hm, rfl⟩

theorem Function.contains_iff {defined : Function} {start offset : Nat} :
    (defined.definition start).extent.contains offset ↔ start + width defined.front ≤ offset ∧
      offset ≤ start + width defined.front + 1 + width defined.body.print := by
  rw [Extent.contains, Bool.and_eq_true]
  exact and_congr decide_eq_true_iff decide_eq_true_iff

theorem Function.width_print (defined : Function) :
    width defined.print = width defined.front + 1 + width defined.body.print + 1 := by
  have hp := defined.print_append []
  rw [List.append_nil] at hp
  simp only [hp, Cell.width_append, Cell.width_cons_ascii (c := '{') (by decide),
    Cell.width_cons_ascii (c := '}') (by decide), Cell.width_nil]
  omega

theorem Function.contains_extent {defined : Function} {start offset : Nat}
    (h : (defined.definition start).extent.contains offset) :
    start ≤ offset ∧ offset < start + width defined.print := by
  have hw := defined.width_print
  have hc := contains_iff.1 h
  omega

theorem findGlobals_laid :
    Declaration.findGlobals (laid 0 (printMembers members ++ gaps.print))
        ((placed 0 members).filterMap fun (position, member) => member.definition? position) =
      (placed 0 members).filterMap fun (position, member) => member.declaration? position := by
  rw [Declaration.findGlobals, Slice.filterMap_statementStarts, Slice.heads, Slice.laid,
    filterMap_heads Member.read?_declaration members gaps 0, List.filter_eq_self]
  intro declaration hd
  obtain ⟨⟨start, member⟩, hm, hf⟩ := List.mem_filterMap.1 hd
  cases member with
  | function defined => cases hf
  | declaration declared =>
    cases hf
    rw [Bool.not_eq_true', List.any_eq_false]
    intro function hfunction hc
    obtain ⟨place, defined, hdefined, rfl⟩ := mem_definitions hfunction
    obtain ⟨hfirst, hlast⟩ := Function.contains_extent hc
    have hpos := width_pos (Member.print_ne_nil (.declaration declared))
    have hne : (place, Member.function defined) ≠ (start, .declaration declared) := by
      intro he
      cases he
    change place ≤ start at hfirst
    change start < place + width (Member.function defined).print at hlast
    rcases apart_of_mem_placed hdefined hm hne with h | h
    · exact absurd (Nat.lt_of_lt_of_le hlast h) (Nat.lt_irrefl _)
    · have h : start + width (Member.declaration declared).print ≤ place := h
      omega

end Program

end CodeOutline
