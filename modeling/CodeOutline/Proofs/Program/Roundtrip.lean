import CodeOutline.Proofs.Order
import CodeOutline.Proofs.Program.Member
import CodeOutline.Proofs.Program.Recognition
import CodeOutline.Proofs.Program.Verbatim

namespace CodeOutline.Program

open Cell (layout width)
open Slice (laid)

variable {position : Nat}

/-- What is recognised of a member that is printed at the position. -/
def Member.outline (position : Nat) : Member → Outline
  | .declaration declared => Outline.ofDeclaration .item (declared.declaration position)
  | .function defined => Outline.ofFunction (defined.definition position)

theorem Member.outline_offset (position : Nat) (member : Member) :
    (member.outline position).label.offset = position := by
  cases member <;> rfl

theorem TypeName.text_ne_empty (type : TypeName) : type.text.isEmpty = false := by
  have h : type.text ≠ "" := by
    rw [TypeName.text, ← String.ofList_nil]
    exact fun he => List.append_ne_nil_of_left_ne_nil type.head.ne_nil _
      (String.ofList_injective he)
  simpa using h

theorem parametersFrom_content (formals : List Formal) (position : Nat) :
    ((parametersFrom position formals).map Outline.ofParameter).map (Tree.map Item.content) =
      formals.map Formal.tree := by
  induction formals generalizing position with
  | nil => rfl
  | cons formal others ih =>
    rw [parametersFrom, List.map_cons, List.map_cons, List.map_cons, ih]
    simp only [Outline.ofParameter, Formal.parameter, formal.type.text_ne_empty, Tree.map_node]
    rfl

theorem Function.content (defined : Function) (h : defined.body.nesting ≤ maxNesting)
    (position : Nat) :
    (Outline.ofFunction (defined.definition position)).map Item.content = defined.tree := by
  have hbody := defined.body.reads maxNesting h (position + width defined.front + 1)
  have hformals := parametersFrom_content defined.formals
    (position + width (defined.type.print ++ (defined.name.chars ++ defined.gaps.print)) + 1 +
      width defined.inside.print)
  rw [Outline.ofFunction, Tree.map_node, List.map_append, Function.definition, hformals,
    List.map_singleton, Tree.map_node, Outline.ofBlock, hbody]
  rfl

theorem Member.content (member : Member) (h : member.nesting ≤ maxNesting) (position : Nat) :
    (member.outline position).map Item.content = member.tree := by
  cases member with
  | declaration declared => exact declared.content .item position
  | function defined => exact defined.content h position

/-- The tree of a printed program holds its members in their order. -/
theorem ofText_laid (members : List (Gaps × Member)) (gaps : Gaps) :
    Outline.ofText (laid 0 (printMembers members ++ gaps.print)) =
      .node ⟨.program, .root, 0, none, .absent⟩
        ((placed 0 members).map fun (position, member) => member.outline position) := by
  have hperm := filterMap_append_perm
    (fun (position, member) => (Member.definition? position member).map Outline.ofFunction)
    (fun (position, member) => (Member.declaration? position member).map
      (Outline.ofDeclaration .item)) (placed 0 members) (by
        rintro ⟨position, declared | defined⟩ _
        · exact .inl rfl
        · exact .inr rfl)
  have hall : (fun entry : Nat × Member =>
      ((Member.definition? entry.1 entry.2).map Outline.ofFunction).or
        ((Member.declaration? entry.1 entry.2).map (Outline.ofDeclaration .item))) =
      some ∘ fun entry => entry.2.outline entry.1 := by
    funext ⟨position, member⟩
    cases member <;> rfl
  rw [hall, List.filterMap_eq_map] at hperm
  have hsorted : ((placed 0 members).map fun (position, member) =>
      Member.outline position member).Pairwise
        fun left right => left.label.offset < right.label.offset := by
    rw [List.pairwise_map]
    refine (pairwise_position members 0).imp fun {left right} h => ?_
    rw [left.2.outline_offset, right.2.outline_offset]
    exact h
  have hsort := mergeSort_eq_of_perm (fun item : Outline => item.label.offset) hperm hsorted
  rw [Outline.ofText]
  simp only [findAll_laid, findGlobals_laid, List.map_filterMap]
  rw [hsort]

theorem mem_members_of_placed {members : List (Gaps × Member)} {start : Nat} {member : Member}
    (h : (start, member) ∈ placed position members) : ∃ gaps, (gaps, member) ∈ members := by
  induction members generalizing position with
  | nil => cases h
  | cons entry others ih =>
    obtain ⟨gaps, first⟩ := entry
    rcases List.mem_cons.1 h with he | h
    · cases he
      exact ⟨gaps, List.mem_cons_self⟩
    · obtain ⟨other, ho⟩ := ih h
      exact ⟨other, List.mem_cons_of_mem _ ho⟩

theorem map_placed {α : Type} (f : Member → α) (members : List (Gaps × Member)) (position : Nat) :
    ((placed position members).map fun (_, member) => f member) =
      members.map fun (_, member) => f member := by
  induction members generalizing position with
  | nil => rfl
  | cons entry others ih =>
    rw [placed, List.map_cons, List.map_cons, ih]

theorem nesting_le_of_mem {members : List (Gaps × Member)} {gaps last : Gaps} {member : Member}
    (h : (gaps, member) ∈ members) : member.nesting ≤ Program.nesting ⟨members, last⟩ := by
  induction members with
  | nil => cases h
  | cons entry others ih =>
    rw [Program.nesting, List.foldr_cons]
    rcases List.mem_cons.1 h with rfl | h
    · exact Nat.le_max_left _ _
    · exact Nat.le_trans (ih h) (Nat.le_max_right _ _)

/-- What is shown of a printed program is the program: every node of it and nothing else. -/
theorem structuralTree_text (program : Program) (h : program.nesting ≤ maxNesting) :
    (structuralTree program.text).map NodeLabel.content = program.tree := by
  obtain ⟨members, gaps⟩ := program
  have hmask := masked_eq_cells ⟨members, gaps⟩
  have hview : (Source.ofString (text ⟨members, gaps⟩)).view =
      laid 0 (printMembers members ++ gaps.print) := by
    rw [Source.view, hmask, Source.ofString, text, String.toList_ofList, laid]
  have hitems : ((placed 0 members).map fun (position, member) =>
      member.outline position).map (Tree.map Item.content) =
        members.map fun (_, member) => member.tree := by
    rw [← map_placed Member.tree members 0, List.map_map]
    apply List.map_congr_left
    rintro ⟨position, member⟩ hm
    obtain ⟨before, hmember⟩ := mem_members_of_placed hm
    exact member.content (Nat.le_trans (nesting_le_of_mem hmember) h) position
  rw [structuralTree, Source.tree_content hmask, hview, ofText_laid, Tree.map_node, hitems]
  rfl

/-- A type of one word with a space after it. -/
def plainType (word : Identifier) : TypeName :=
  ⟨word, [], ⟨.blank .space, []⟩⟩

def intType : TypeName :=
  plainType ⟨['i', 'n', 't'], rfl⟩

def spaced (chars : List Char) (h : isExpression chars = true) : Phrase :=
  ⟨[.space], ⟨chars, h⟩, []⟩

def guarded (chars : List Char) (h : isExpression chars = true) : Guard :=
  ⟨[.space], ⟨[], ⟨chars, h⟩, []⟩, [.space]⟩

/-- A loop over a chain of conditionals, with a call, a loop and a return in their branches. -/
def sampleLoop : Statement :=
  .forLoop
    { before := [.space]
      init := .declaration [] ⟨intType, ⟨['i'], rfl⟩, [.space], some (spaced ['0'] rfl)⟩
      test := .value (spaced ['i', ' ', '<', ' ', 'm'] rfl)
      update := .value (spaced ['i', '+', '+'] rfl)
      after := [.space] }
    (.cons [.newline]
      (.conditional (guarded ['s'] rfl)
        (.cons [.space]
          (.call ⟨⟨['a', 'd', 'd'], rfl⟩, [], [], [⟨[], ⟨['i'], rfl⟩, []⟩, spaced ['m'] rfl]⟩ [])
          (.done [.space]))
        (.chain [.newline] .space [] (guarded ['m'] rfl)
          (.cons [.space]
            (.result (.call .space [] ⟨⟨['f'], rfl⟩, [], [], [⟨[], ⟨['s'], rfl⟩, []⟩]⟩ []))
            (.done [.space]))
          (.block [.newline] [.space]
            (.cons [.space] (.whileLoop (guarded ['t'] rfl) (.done [])) (.done [.space])))))
      (.done [.newline]))

/-- A global variable and a function that declares its name once more, and its own. -/
def sample : Program where
  members := [
    ([], .declaration ⟨intType, ⟨['t'], rfl⟩, [.space], some (spaced ['1', ' ', '+', ' ', '2'] rfl)⟩),
    ([.newline], .function {
      type := ⟨⟨['c', 'h', 'a', 'r'], rfl⟩, [], ⟨.blank .space, [.star]⟩⟩
      name := ⟨['g'], rfl⟩
      gaps := []
      inside := []
      formals := [⟨[], ⟨⟨['c', 'h', 'a', 'r'], rfl⟩, [], ⟨.star, []⟩⟩, ⟨['s'], rfl⟩, []⟩,
        ⟨[.space], intType, ⟨['m'], rfl⟩, []⟩]
      after := [.space]
      body :=
        .cons [.newline] (.declaration ⟨intType, ⟨['t'], rfl⟩, [], none⟩)
          (.cons [.newline] (.declaration ⟨plainType ⟨['l', 'o', 'n', 'g'], rfl⟩,
              ⟨['g'], rfl⟩, [.space], some (spaced ['t', '/', '2'] rfl)⟩)
            (.cons [.newline] sampleLoop
              (.cons [.newline] (.result (.value .space ⟨[], ⟨['s'], rfl⟩, []⟩))
                (.done [.newline])))) })]
  gaps := [.newline]

theorem structuralTree_sample :
    sample.text =
      "int t = 1 + 2;\nchar *g(char*s, int m) \x7b\nint t;\nlong g = t/2;\nfor (int i = 0; i < m; i++) \x7b\nif (s) \x7b add(i, m); \x7d\nelse if (m) \x7b return f(s); \x7d\nelse \x7b while (t) \x7b\x7d \x7d\n\x7d\nreturn s;\n\x7d\n" ∧
      sample.nesting ≤ maxNesting ∧
      (structuralTree sample.text).map NodeLabel.content = sample.tree :=
  ⟨by decide +kernel, by decide, structuralTree_text sample (by decide)⟩

end CodeOutline.Program
