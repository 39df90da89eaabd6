import CodeOutline.Proofs.Outline.Content
import CodeOutline.Proofs.Outline.Nested
import CodeOutline.Proofs.Outline.Variable
import CodeOutline.Proofs.Shape.Prefix
import CodeOutline.Proofs.Source.Mask
import CodeOutline.Proofs.Symbol.Candidate

namespace CodeOutline

open Slice (IsPart IsTail IsEnclosed)
open Delimiter (IsNested)

namespace Outline

variable {text block head : Slice} {function : FunctionDefinition} {declaration : Declaration}
  {offset : Nat} {tree child : Outline}

theorem mem_locals_of_isPart (hf : ∀ cell ∈ head.cells, cell.IsFaithful)
    (hp : IsPart head function.body) (hr : Declaration.read? head = some declaration)
    (hs : head.start ∈ function.body.statementStarts .nested) :
    declaration ∈ Candidate.locals function := by
  refine List.mem_filterMap.2 ⟨head.start, hs, ?_⟩
  rw [Candidate.local?, Declaration.read?_of_isPart hf hp hr, Option.some_or]

/-- A start of an enclosed block is one of the whole body unless a block without braces begins with
it. -/
theorem nested_start_of_encloses (hb : IsPart function.body text)
    (hi : IsEnclosed block function.body) (he : Encloses text offset block)
    (hh : head ∈ block.heads .topLevel) (hne : offset ≠ head.start) :
    head.start ∈ function.body.statementStarts .nested := by
  have hm := Slice.start_mem_of_mem_heads hh
  rcases he with ⟨rfl, hsolid⟩ | ⟨opening, ho, hbyte, hstart⟩
  · exact hi.mem_statementStarts_of_ne hsolid hne.symm hm
  · apply hi.mem_statementStarts ?_ hm
    have hle := hi.isPart.start_le
    have hstop := Nat.le_trans block.start_le_stop hi.isPart.stop_le
    by_cases heq : block.start = function.body.start
    · exact .inl heq
    · have hfirst : function.body.start ≤ offset := by omega
      have hlast : offset + 1 ≤ function.body.stop := by omega
      exact .inr ⟨offset, opening, ho.of_le hb hfirst hlast, hbyte, hstart⟩

/-- A variable of the tree is a global one or stands in the body of a function, where the table
finds it if a statement starts there. -/
theorem exists_declaration (hf : ∀ cell ∈ text.cells, cell.IsFaithful)
    (ht : tree ∈ (ofText text).subtrees) (hc : child ∈ tree.children)
    (hk : child.label.kind = .variableDeclaration) :
    ∃ declaration relation, child = ofDeclaration relation declaration ∧
      (declaration ∈ Declaration.findGlobals text (FunctionDefinition.findAll text) ∨
        ∃ function ∈ FunctionDefinition.findAll text,
          function.extent.contains declaration.start ∧
          (declaration.start ∈ function.body.statementStarts .nested →
            declaration ∈ Candidate.locals function) ∧
          (IsNested function.body.cells →
            ¬ (tree.label.kind = .blockStatement ∧ tree.label.offset = declaration.start) →
              declaration.start ∈ function.body.statementStarts .nested)) := by
  rcases sound_of_mem_subtrees ht with rfl | ⟨function, hm, rfl⟩ | hs
  · rcases mem_children_ofText.1 hc with ⟨function, _, rfl⟩ | ⟨declaration, hd, rfl⟩
    · cases hk
    · exact ⟨declaration, _, rfl, .inl hd⟩
  · obtain ⟨head, hh, hr⟩ := FunctionDefinition.mem_findAll.1 hm
    exact absurd hk (settled_ofFunction hh hr child hc).2
  · obtain ⟨hblock, levels, block, head, declaration, hv, he, hh, hr, rfl⟩ := hs.declared child hc hk
    refine ⟨declaration, _, rfl, .inr ?_⟩
    obtain ⟨function, hm, hpart, henclosed⟩ := hv.exists_function hf
    have hhead := (Slice.isTail_of_mem_heads hh).isPart.trans hpart
    have hstart : declaration.start = head.start := (Declaration.read?_spec hr).1
    obtain ⟨whole, hw, hread⟩ := FunctionDefinition.mem_findAll.1 hm
    obtain ⟨_, _, hbody, hopening, hlast, _⟩ := FunctionDefinition.read?_spec hread
    have hbody := hbody.trans (Slice.isTail_of_mem_heads hw).isPart
    refine ⟨function, hm, ?_, fun hs => ?_, fun hn hne => ?_⟩
    · have hle := hhead.start_le
      have hlt := Slice.start_lt_of_mem_heads hh
      have hstop := hhead.stop_le
      rw [Extent.contains, Bool.and_eq_true, decide_eq_true_eq, decide_eq_true_eq, hstart]
      have hfirst : function.extent.first = function.opening := rfl
      exact ⟨by omega, by omega⟩
    · rw [hstart] at hs
      exact mem_locals_of_isPart (fun cell hm => hf cell ((hhead.trans hbody).subset hm)) hhead hr hs
    · rw [hstart] at hne ⊢
      exact nested_start_of_encloses hbody (henclosed hn) he hh fun ho => hne ⟨hblock, ho⟩

end Outline

theorem Source.isSome_get?_symbols {source : Source} {candidate : Candidate}
    (h : candidate ∈ Candidate.collect source.view) :
    (source.symbols.get? candidate.name).isSome := by
  rw [get?_symbols, Option.isSome_map]
  exact (preferred?_isSome Candidate.kind).2 ⟨candidate, h, rfl⟩

/-- A variable of the tree has an entry in the symbol table if, in the functions around it, the scan
of the body starts a statement there. It does where the brackets of the body are paired and the
variable is not itself the start of a block without braces. -/
theorem variables_agree (text : String) {parent child : Node}
    (hp : parent ∈ (structuralTree text).subtrees) (hc : child ∈ parent.children)
    (hk : child.label.kind = .variableDeclaration) :
    ∃ name, child.label.name = some name ∧
      ((∀ function ∈ FunctionDefinition.findAll (Source.ofString text).view,
          function.extent.contains child.label.offset →
            child.label.offset ∈ function.body.statementStarts .nested ∨
            IsNested function.body.cells ∧
              ¬ (parent.label.kind = .blockStatement ∧
                parent.label.offset = child.label.offset)) →
        ((symbolTable text).get? name).isSome) := by
  have hf := Source.isFaithful_view text
  rw [structuralTree, Source.tree, Tree.subtrees_map] at hp
  obtain ⟨tree, ht, rfl⟩ := List.mem_map.1 hp
  rw [Source.children_describe] at hc
  obtain ⟨outline, ho, rfl⟩ := List.mem_map.1 hc
  rw [Source.label_describe] at hk
  simp only [Source.label_describe]
  obtain ⟨declaration, relation, rfl, hd⟩ := Outline.exists_declaration hf ht ho hk
  refine ⟨declaration.name, rfl, fun h => ?_⟩
  rcases hd with hd | ⟨function, hm, hcontains, hlocal, hstart⟩
  · exact Source.isSome_get?_symbols (Candidate.mem_collect.2 (.inr (.inl ⟨declaration, hd, rfl⟩)))
  · have hs : declaration.start ∈ function.body.statementStarts .nested := by
      rcases h function hm hcontains with hs | ⟨hn, hne⟩
      · exact hs
      · exact hstart hn hne
    exact Source.isSome_get?_symbols
      (Candidate.mem_collect.2 (.inr (.inr ⟨function, hm, declaration, hlocal hs, rfl⟩)))

theorem variables_agree_in_braces :
    ((symbolTable "void f() \x7b if (a) \x7b int x; \x7d \x7d").get? "x").isSome := by
  have hnode : ∃ parent ∈ (structuralTree "void f() \x7b if (a) \x7b int x; \x7d \x7d").subtrees,
      ∃ child ∈ parent.children, child.label.kind = .variableDeclaration ∧
        child.label.name = some "x" ∧ parent.label.offset ≠ child.label.offset := by
    decide +kernel
  have hnested : ∀ function ∈ FunctionDefinition.findAll
      (Source.ofString "void f() \x7b if (a) \x7b int x; \x7d \x7d").view,
        IsNested function.body.cells := by
    decide +kernel
  obtain ⟨parent, hp, child, hc, hk, hx, hne⟩ := hnode
  obtain ⟨name, hname, hentry⟩ := variables_agree _ hp hc hk
  cases hx.symm.trans hname
  exact hentry fun function hf _ => .inr ⟨hnested function hf, fun ho => hne ho.2⟩

/-- A declaration that is the whole branch of a conditional has no entry, nor has one in a body whose
brackets are not paired. -/
theorem variables_disagree :
    (∃ label ∈ (structuralTree "void f() \x7b if (a) int x; \x7d").walk,
      label.kind = .variableDeclaration ∧ label.name = some "x" ∧
        (symbolTable "void f() \x7b if (a) int x; \x7d").get? "x" = none) ∧
    ∃ label ∈ (structuralTree "void f() \x7b if (a[) \x7b int x; \x7d \x7d").walk,
      label.kind = .variableDeclaration ∧ label.name = some "x" ∧
        (symbolTable "void f() \x7b if (a[) \x7b int x; \x7d \x7d").get? "x" = none := by
  decide +kernel

end CodeOutline
