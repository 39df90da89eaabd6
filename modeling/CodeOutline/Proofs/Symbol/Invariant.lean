import CodeOutline.Proofs.Source.Mask
import CodeOutline.Proofs.Symbol.Candidate

namespace CodeOutline

namespace Scope

variable {scope : Scope}

theorem eq_function_of_text_ne (h : scope.text ≠ "global") : scope = .function scope.text := by
  cases scope with
  | global => exact absurd rfl h
  | function name => rfl

/-- The one string that two scopes share. -/
theorem eq_or_eq_of_text_eq (h : scope.text = "global") :
    scope = .global ∨ scope = .function "global" := by
  cases scope with
  | global => exact .inl rfl
  | function name => exact .inr (congrArg _ h)

end Scope

variable {text : Slice} {candidate : Candidate}

namespace Candidate

/-- A candidate in a function has a body around it, or is a parameter. -/
theorem exists_owner (h : candidate ∈ collect text) {owner : String}
    (hs : candidate.scope = .function owner) :
    ∃ function ∈ FunctionDefinition.findAll text, function.name = owner := by
  rcases mem_collect.1 h with ⟨function, hf, hm⟩ | ⟨declaration, _, rfl⟩ |
    ⟨_, _, declaration, _, rfl⟩
  · rcases mem_ofFunction.1 hm with rfl | ⟨parameter, _, rfl⟩
    · cases hs
    · cases hs
      exact ⟨function, hf, rfl⟩
  · cases hs
  · obtain ⟨function, hf, hname, _⟩ := scopeAt_function hs
    exact ⟨function, hf, hname⟩

theorem not_contains_of_global (hf : ∀ cell ∈ text.cells, cell.IsFaithful)
    (h : candidate ∈ collect text) (hs : candidate.scope = .global) :
    ∀ function ∈ FunctionDefinition.findAll text,
      function.extent.contains candidate.offset = false := by
  intro function hfunction
  obtain ⟨head, hh, hr⟩ := FunctionDefinition.mem_findAll.1 hfunction
  have hhead := Slice.isTail_of_mem_heads hh
  have hname {other : Slice} {declarator : Declarator} (ho : other ∈ text.heads .topLevel)
      (hd : Declarator.read? other = some declarator) :
      function.extent.contains declarator.name.start = false :=
    FunctionDefinition.not_contains_name hf hhead hr (Slice.isTail_of_mem_heads ho)
      (Slice.start_mem_of_mem_heads ho) hd
  rcases mem_collect.1 h with ⟨other, ho, hm⟩ | ⟨declaration, hd, rfl⟩ |
    ⟨_, _, declaration, _, rfl⟩
  · rcases mem_ofFunction.1 hm with rfl | ⟨parameter, _, rfl⟩
    · obtain ⟨head', hh', hr'⟩ := FunctionDefinition.mem_findAll.1 ho
      obtain ⟨declarator, _, _, hdeclarator, _, hoffset, _⟩ := FunctionDefinition.read?_opening hr'
      rw [definition, hoffset]
      exact hname hh' hdeclarator
    · cases hs
  · obtain ⟨⟨head', hh', hr'⟩, _⟩ := Declaration.mem_findGlobals.1 hd
    obtain ⟨declarator, _, _, hdeclarator, rfl⟩ := Declaration.read?_declarator hr'
    exact hname hh' hdeclarator
  · exact scopeAt_global hs function hfunction

theorem innermost_of_variable (h : candidate ∈ collect text) (hk : candidate.kind = .variable)
    {owner : String} (hs : candidate.scope = .function owner) :
    ∃ function ∈ FunctionDefinition.findAll text, function.name = owner ∧
      function.extent.contains candidate.offset ∧
      ∀ other ∈ FunctionDefinition.findAll text, other.extent.contains candidate.offset →
        function.extent.length ≤ other.extent.length := by
  rcases mem_collect.1 h with ⟨function, _, hm⟩ | ⟨declaration, _, rfl⟩ |
    ⟨_, _, declaration, _, rfl⟩
  · rcases mem_ofFunction.1 hm with rfl | ⟨parameter, _, rfl⟩
    · cases hk
    · cases hk
  · cases hs
  · exact scopeAt_function hs

end Candidate

namespace Source

variable {source : Source} {name : String} {entry : SymbolEntry}

theorem exists_owner_entry (h : (name, entry) ∈ source.symbols.entries) {owner : String}
    (hs : entry.scope = .function owner) :
    ∃ held, (owner, held) ∈ source.symbols.entries ∧ held.kind = .function := by
  obtain ⟨candidate, hc, he⟩ := exists_candidate h
  cases he
  obtain ⟨function, hf, rfl⟩ := Candidate.exists_owner hc hs
  exact exists_function_entry hf

theorem exists_function_of_entry (h : (name, entry) ∈ source.symbols.entries) {owner : String}
    (hs : entry.scope = .function owner) :
    ∃ function ∈ FunctionDefinition.findAll source.view, function.name = owner ∧
      (entry.kind = .variable → function.extent.contains entry.offset) := by
  obtain ⟨candidate, hc, he⟩ := exists_candidate h
  cases he
  by_cases hk : candidate.kind = .variable
  · obtain ⟨function, hf, hname, hin, _⟩ := Candidate.innermost_of_variable hc hk hs
    exact ⟨function, hf, hname, fun _ => hin⟩
  · obtain ⟨function, hf, hname⟩ := Candidate.exists_owner hc hs
    exact ⟨function, hf, hname, fun hv => absurd hv hk⟩

end Source

/-- Each entry in a function has an entry of that function beside it. Global entries stand outside
all bodies, and a variable of a function in the shortest body around it, which is one of that
function. -/
theorem symbolTable_scopes (text : String) :
    ∀ name entry, (name, entry) ∈ (symbolTable text).entries →
      (∀ owner, entry.scope = .function owner →
        ∃ held, (owner, held) ∈ (symbolTable text).entries ∧ held.kind = .function) ∧
      (entry.scope = .global → ∀ function ∈ FunctionDefinition.findAll (Source.ofString text).view,
        function.extent.contains entry.offset = false) ∧
      ∀ owner, entry.kind = .variable → entry.scope = .function owner →
        ∃ function ∈ FunctionDefinition.findAll (Source.ofString text).view,
          function.name = owner ∧ function.extent.contains entry.offset ∧
          ∀ other ∈ FunctionDefinition.findAll (Source.ofString text).view,
            other.extent.contains entry.offset →
              function.extent.length ≤ other.extent.length := by
  intro name entry hm
  obtain ⟨candidate, hc, he⟩ := Source.exists_candidate hm
  cases he
  refine ⟨fun owner hs => ?_, Candidate.not_contains_of_global (Source.isFaithful_view text) hc,
    fun owner hk hs => Candidate.innermost_of_variable hc hk hs⟩
  obtain ⟨function, hf, rfl⟩ := Candidate.exists_owner hc hs
  exact Source.exists_function_entry hf

theorem symbolTable_scopes_local :
    (∃ held, ("f", held) ∈ (symbolTable "int f() \x7b int x; \x7d").entries ∧
      held.kind = .function) ∧
    ∃ function ∈ FunctionDefinition.findAll (Source.ofString "int f() \x7b int x; \x7d").view,
      function.name = "f" ∧ function.extent.contains 14 := by
  have hm : ("x", ⟨.variable, "int", .function "f", 1, 14, none, "SP+120", 14⟩) ∈
      (symbolTable "int f() \x7b int x; \x7d").entries := by
    rw [symbolTable, Source.symbols, Candidate.collect, List.mergeSort_of_pairwise]
    · decide +kernel
    · decide +kernel
  obtain ⟨howner, _, hbody⟩ := symbolTable_scopes _ _ _ hm
  obtain ⟨function, hf, hname, hin, _⟩ := hbody "f" rfl rfl
  exact ⟨howner "f" rfl, function, hf, hname, hin⟩

/-- A string other than `global` is that of a function of the table. An entry under `global` stands
outside all bodies, or else belongs to a function of the table that has this name, a variable to the
body of one. -/
theorem symbolTable_scopeTexts (text : String) :
    ∀ name entry, (name, entry) ∈ (symbolTable text).entries →
      (entry.scope.text ≠ "global" →
        ∃ held, (entry.scope.text, held) ∈ (symbolTable text).entries ∧ held.kind = .function) ∧
      (entry.scope.text = "global" →
        (entry.scope = .global ∧ ∀ function ∈ FunctionDefinition.findAll (Source.ofString text).view,
          function.extent.contains entry.offset = false) ∨
        entry.scope = .function "global" ∧
          (∃ held, ("global", held) ∈ (symbolTable text).entries ∧ held.kind = .function) ∧
          ∃ function ∈ FunctionDefinition.findAll (Source.ofString text).view,
            function.name = "global" ∧
              (entry.kind = .variable → function.extent.contains entry.offset)) := by
  intro name entry hm
  constructor
  · intro hne
    exact Source.exists_owner_entry hm (Scope.eq_function_of_text_ne hne)
  · intro hg
    rcases Scope.eq_or_eq_of_text_eq hg with hs | hs
    · obtain ⟨candidate, hc, he⟩ := Source.exists_candidate hm
      cases he
      have houtside := Candidate.not_contains_of_global (Source.isFaithful_view text) hc hs
      exact .inl ⟨hs, houtside⟩
    · have howner := Source.exists_owner_entry hm hs
      have hbody := Source.exists_function_of_entry hm hs
      exact .inr ⟨hs, howner, hbody⟩

theorem symbolTable_scopeTexts_global :
    (∃ held, ("global", held) ∈ (symbolTable "void global() \x7b int x; \x7d").entries ∧
      held.kind = .function) ∧
    ∃ function ∈ FunctionDefinition.findAll (Source.ofString "void global() \x7b int x; \x7d").view,
      function.name = "global" ∧ function.extent.contains 20 := by
  have hm : ("x", ⟨.variable, "int", .function "global", 1, 20, none, "SP+120", 20⟩) ∈
      (symbolTable "void global() \x7b int x; \x7d").entries := by
    rw [symbolTable, Source.symbols, Candidate.collect, List.mergeSort_of_pairwise]
    · decide +kernel
    · decide +kernel
  rcases (symbolTable_scopeTexts _ _ _ hm).2 rfl with ⟨hs, _⟩ | ⟨_, howner, function, hf, hname, hin⟩
  · cases hs
  · exact ⟨howner, function, hf, hname, hin rfl⟩

/-- The variable of a function named `global` is in its body and has the string of the scope outside
all bodies. -/
theorem not_outside_of_scopeText :
    ¬ ∀ row ∈ (symbolTable "void global() \x7b int x; \x7d").entries,
      row.2.scope.text = "global" → ∀ function ∈ FunctionDefinition.findAll
          (Source.ofString "void global() \x7b int x; \x7d").view,
        function.extent.contains row.2.offset = false := by
  rw [symbolTable, Source.symbols, Candidate.collect, List.mergeSort_of_pairwise]
  · decide +kernel
  · decide +kernel

end CodeOutline
