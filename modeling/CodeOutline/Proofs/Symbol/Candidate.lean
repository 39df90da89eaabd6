import CodeOutline.Proofs.Outline.Part
import CodeOutline.Proofs.Shape.Start
import CodeOutline.Proofs.Symbol.Table
import CodeOutline.Proofs.Text.Extent
import CodeOutline.Symbol.Collect

namespace CodeOutline

namespace Candidate

variable {text : Slice} {candidate : Candidate}

theorem mem_collect : candidate ∈ collect text ↔
    (∃ function ∈ FunctionDefinition.findAll text, candidate ∈ ofFunction function) ∨
    (∃ declaration ∈ Declaration.findGlobals text (FunctionDefinition.findAll text),
      candidate = ofVariable .global declaration) ∨
    (∃ function ∈ FunctionDefinition.findAll text, ∃ declaration ∈ locals function,
      candidate = ofVariable
        (scopeAt (FunctionDefinition.findAll text) declaration.nameOffset) declaration) := by
  simp only [collect, List.mem_mergeSort, List.mem_append, List.mem_flatMap, List.mem_map, or_assoc]
  constructor
  · rintro (h | ⟨declaration, hd, rfl⟩ | ⟨declaration, ⟨function, hf, hd⟩, rfl⟩)
    · exact .inl h
    · exact .inr (.inl ⟨declaration, hd, rfl⟩)
    · exact .inr (.inr ⟨function, hf, declaration, hd, rfl⟩)
  · rintro (h | ⟨declaration, hd, rfl⟩ | ⟨function, hf, declaration, hd, rfl⟩)
    · exact .inl h
    · exact .inr (.inl ⟨declaration, hd, rfl⟩)
    · exact .inr (.inr ⟨declaration, ⟨function, hf, hd⟩, rfl⟩)

theorem exists_read?_of_mem_locals {function : FunctionDefinition} {declaration : Declaration}
    (h : declaration ∈ locals function) : ∃ statement, Slice.IsPart statement function.body ∧
      Declaration.read? statement = some declaration := by
  rw [locals, Slice.filterMap_statementStarts, List.mem_filterMap] at h
  obtain ⟨start, hs, hd⟩ := h
  have hstart := (Slice.isTail_of_mem_heads hs).isPart
  rw [local?, Option.or_eq_some_iff] at hd
  rcases hd with hd | ⟨_, hd⟩
  · exact ⟨start, hstart, hd⟩
  · obtain ⟨heading, hheading, hd⟩ := Option.bind_eq_some_iff.1 hd
    obtain ⟨_, hd⟩ := Option.ite_none_right_eq_some.1 hd
    obtain ⟨clause, hc, hd⟩ := Option.bind_eq_some_iff.1 hd
    have hclause := (Slice.next?_spec hc).2.1.isPart.trans (Slice.heading?_spec hheading).2.1
    exact ⟨clause, hclause.trans hstart, hd⟩

/-- A candidate is of a function at the top of the text, or of a declaration that is read in it. -/
theorem exists_read?_of_mem_collect (h : candidate ∈ collect text) :
    (∃ head ∈ text.heads .topLevel, ∃ function, FunctionDefinition.read? head = some function ∧
      candidate ∈ ofFunction function) ∨
    ∃ statement declaration scope, Slice.IsPart statement text ∧
      Declaration.read? statement = some declaration ∧
        candidate = ofVariable scope declaration := by
  rcases mem_collect.1 h with ⟨function, hf, hm⟩ | ⟨declaration, hd, rfl⟩ |
    ⟨function, hf, declaration, hd, rfl⟩
  · obtain ⟨head, hh, hr⟩ := FunctionDefinition.mem_findAll.1 hf
    exact .inl ⟨head, hh, function, hr, hm⟩
  · obtain ⟨⟨head, hh, hr⟩, _⟩ := Declaration.mem_findGlobals.1 hd
    exact .inr ⟨head, declaration, _, (Slice.isTail_of_mem_heads hh).isPart, hr, rfl⟩
  · obtain ⟨head, hh, hr⟩ := FunctionDefinition.mem_findAll.1 hf
    obtain ⟨statement, hp, hread⟩ := exists_read?_of_mem_locals hd
    have hbody := (FunctionDefinition.read?_spec hr).2.2.1.trans
      (Slice.isTail_of_mem_heads hh).isPart
    exact .inr ⟨statement, declaration, _, hp.trans hbody, hread, rfl⟩

/-- The candidate of a function itself. -/
def definition (function : FunctionDefinition) : Candidate :=
  ⟨function.name, .function, function.returnType, .global, function.nameOffset,
    some function.parameterNames⟩

theorem mem_ofFunction {function : FunctionDefinition} : candidate ∈ ofFunction function ↔
    candidate = definition function ∨
    ∃ parameter ∈ function.parameters, candidate =
      ⟨parameter.name, .parameter, parameter.declaredType, .function function.name,
        parameter.offset, none⟩ := by
  rw [ofFunction, List.mem_cons, List.mem_map]
  simp only [eq_comm, definition]

section

variable {functions : List FunctionDefinition} {offset : Nat}

/-- Whose scope an offset is in is told by the shortest body around it. -/
theorem scopeAt_function {owner : String} (h : scopeAt functions offset = .function owner) :
    ∃ function ∈ functions, function.name = owner ∧ function.extent.contains offset ∧
      ∀ other ∈ functions, other.extent.contains offset →
        function.extent.length ≤ other.extent.length := by
  rw [scopeAt] at h
  split at h
  · next function hs =>
    cases h
    obtain ⟨index, hi, hf⟩ := Option.bind_eq_some_iff.1 hs
    obtain ⟨extent, he, hc, hle⟩ := Extent.innermost?_spec hi
    rw [List.getElem?_map, hf] at he
    cases he
    exact ⟨function, List.mem_of_getElem? hf, rfl, hc, fun other ho =>
      hle _ (List.mem_map_of_mem ho)⟩
  · cases h

theorem scopeAt_global (h : scopeAt functions offset = .global) :
    ∀ function ∈ functions, function.extent.contains offset = false := by
  rw [scopeAt] at h
  split at h
  · cases h
  · next hs =>
    cases hi : Extent.innermost? (functions.map (·.extent)) offset with
    | none =>
      exact fun function hf =>
        Extent.not_contains_of_innermost?_none hi _ (List.mem_map_of_mem hf)
    | some index =>
      obtain ⟨extent, he, _⟩ := Extent.innermost?_spec hi
      rw [hi, Option.bind_some] at hs
      rw [List.getElem?_map, hs] at he
      cases he

/-- Bodies that stand one after the other. -/
def Separate (functions : List FunctionDefinition) : Prop :=
  functions.Pairwise fun left right => left.extent.last < right.extent.first

theorem scopeAt_of_contains {functions : List FunctionDefinition} (hs : Separate functions)
    {function : FunctionDefinition} (hm : function ∈ functions) {offset : Nat}
    (h : function.extent.contains offset) :
    scopeAt functions offset = .function function.name := by
  obtain ⟨front, back, rfl⟩ := List.append_of_mem hm
  obtain ⟨_, hback, hfront⟩ := List.pairwise_append.1 hs
  have hin := h
  simp only [Extent.contains, Bool.and_eq_true, decide_eq_true_eq] at hin
  have hf : ∀ extent ∈ front.map FunctionDefinition.extent, extent.contains offset = false := by
    intro extent he
    obtain ⟨other, ho, rfl⟩ := List.mem_map.1 he
    have := hfront other ho function List.mem_cons_self
    simp only [Extent.contains, Bool.and_eq_false_iff, decide_eq_false_iff_not]
    omega
  have hb : ∀ extent ∈ back.map FunctionDefinition.extent, extent.contains offset = false := by
    intro extent he
    obtain ⟨other, ho, rfl⟩ := List.mem_map.1 he
    have := (List.pairwise_cons.1 hback).1 other ho
    simp only [Extent.contains, Bool.and_eq_false_iff, decide_eq_false_iff_not]
    omega
  have hin : Extent.innermost? ((front ++ function :: back).map FunctionDefinition.extent) offset =
      some front.length := by
    rw [List.map_append, List.map_cons, Extent.innermost?_append hf h hb, List.length_map]
  rw [scopeAt, hin, Option.bind_some, List.getElem?_append_right (Nat.le_refl _), Nat.sub_self]
  rfl

end

end Candidate

namespace Source

variable {source : Source} {name : String} {entry : SymbolEntry}

/-- A name has the entry of the last function of that name, or else of its last candidate. -/
theorem get?_symbols (source : Source) (name : String) : source.symbols.get? name =
    (preferred? Candidate.name Candidate.kind name (Candidate.collect source.view)).map
      fun candidate => (Candidate.entry source candidate).2 := by
  have hentry : preferred? Prod.fst (fun entry => entry.2.kind) name
      ((Candidate.collect source.view).map (Candidate.entry source)) =
        (preferred? Candidate.name Candidate.kind name (Candidate.collect source.view)).map
          (Candidate.entry source) := preferred?_map _
  rw [symbols, SymbolTable.get?_registerAll, hentry, Option.map_map]
  rfl

theorem mem_symbols_iff :
    (name, entry) ∈ source.symbols.entries ↔ source.symbols.get? name = some entry :=
  (SymbolTable.isOrdered_registerAll _).mem_iff

theorem exists_candidate (h : (name, entry) ∈ source.symbols.entries) :
    ∃ candidate ∈ Candidate.collect source.view,
      Candidate.entry source candidate = (name, entry) := by
  rw [mem_symbols_iff, get?_symbols, Option.map_eq_some_iff] at h
  obtain ⟨candidate, hp, rfl⟩ := h
  obtain ⟨hm, rfl⟩ := mem_of_preferred? hp
  exact ⟨candidate, hm, rfl⟩

theorem get?_symbols_filter (source : Source) (name : String) :
    (source.symbols.get? name).filter (fun entry => entry.kind = .function) =
      ((Candidate.collect source.view).filter fun candidate =>
        candidate.name = name ∧ candidate.kind = .function).getLast?.map
          fun candidate => (Candidate.entry source candidate).2 := by
  rw [get?_symbols, Option.filter_map, ← preferred?_filter_function]
  rfl

theorem exists_function_entry {function : FunctionDefinition}
    (h : function ∈ FunctionDefinition.findAll source.view) :
    ∃ entry, (function.name, entry) ∈ source.symbols.entries ∧ entry.kind = .function := by
  have hm := Candidate.mem_collect.2 (.inl ⟨function, h, Candidate.mem_ofFunction.2 (.inl rfl)⟩)
  have hne := List.ne_nil_of_mem (List.mem_filter.2 ⟨hm, decide_eq_true ⟨rfl, rfl⟩⟩ :
    _ ∈ (Candidate.collect source.view).filter fun candidate =>
      candidate.name = function.name ∧ candidate.kind = .function)
  have hfilter := get?_symbols_filter source function.name
  rw [List.getLast?_eq_some_getLast hne, Option.map_some, Option.filter_eq_some_iff] at hfilter
  obtain ⟨hget, hkind⟩ := hfilter
  exact ⟨_, mem_symbols_iff.2 hget, of_decide_eq_true hkind⟩

end Source

theorem symbolTable?_eq_some {text : String} {table : SymbolTable}
    (h : symbolTable? text = some table) : table = symbolTable text := by
  rw [symbolTable?] at h
  split at h
  · cases h
    rfl
  · cases h

end CodeOutline
