import CodeOutline.Proofs.Outline.Name
import CodeOutline.Proofs.Symbol.Invariant
import CodeOutline.Proofs.Text.Line
import CodeOutline.Render.Format

namespace CodeOutline

open Text (IsLine breaks isLine_iff)

namespace Candidate

variable {text : Slice} {candidate : Candidate}

theorem isSpelled_name (h : candidate ∈ collect text) : IsSpelled candidate.name := by
  rcases name_of_mem_collect h with ⟨word, hw, hname⟩ | ⟨index, _, hname⟩
  · exact hname ▸ hw.isSpelled
  · exact hname ▸ isSpelled_numbered index

theorem isSpelled_owner {owner : String} (h : candidate ∈ collect text)
    (hs : candidate.scope = .function owner) : IsSpelled owner := by
  obtain ⟨function, hf, rfl⟩ := exists_owner h hs
  have hm := mem_collect.2 (.inl ⟨function, hf, mem_ofFunction.2 (.inl rfl)⟩)
  exact isSpelled_name hm

theorem isSpelled_parameters {names : List String} (h : candidate ∈ collect text)
    (hn : candidate.parameters = some names) : ∀ name ∈ names, IsSpelled name := by
  rcases mem_collect.1 h with ⟨function, hf, hm⟩ | ⟨_, _, rfl⟩ | ⟨_, _, _, _, rfl⟩
  · rcases mem_ofFunction.1 hm with rfl | ⟨parameter, _, rfl⟩
    · cases hn
      intro name hname
      obtain ⟨parameter, hp, rfl⟩ := List.mem_map.1 hname
      have hm := mem_collect.2 (.inl ⟨function, hf, mem_ofFunction.2 (.inr ⟨parameter, hp, rfl⟩)⟩)
      exact isSpelled_name hm
    · cases hn
  · cases hn
  · cases hn

end Candidate

namespace Text

theorem isLine_intercalate {separator : String} {texts : List String} (hs : IsLine separator)
    (h : ∀ text ∈ texts, IsLine text) : IsLine (separator.intercalate texts) := by
  induction texts with
  | nil => exact List.not_mem_nil
  | cons text texts ih =>
    rw [List.forall_mem_cons] at h
    cases texts with
    | nil => rw [String.intercalate_singleton]; exact h.1
    | cons next others =>
      rw [String.intercalate_cons_cons, isLine_append, isLine_append]
      exact ⟨⟨h.1, hs⟩, ih h.2⟩

theorem breaks_padRight (width : Nat) (text : String) :
    breaks (padRight width text) = breaks text := by
  rw [padRight, breaks_append, isLine_iff.1 (isLine_spaces _), Nat.add_zero]

end Text

theorem PseudoAddress.isLine_ofName (name : String) (scope : Scope) :
    IsLine (ofName name scope) := by
  rw [ofName]
  split
  · have hne : codeSum name % 0xFFFF + 0x1000 ≠ 0 := by omega
    refine Text.isLine_append.2 ⟨by decide, fun hm => ?_⟩
    rw [hexadecimal, String.toList_ofList] at hm
    exact absurd ((isHexadecimal_toDigits hne).digit _ hm) (by decide)
  · exact Text.isLine_append.2 ⟨by decide, Text.isLine_toString _⟩

/-- Apart from its declared type, an entry is written without line breaks. -/
structure SymbolEntry.IsPlain (name : String) (entry : SymbolEntry) : Prop where
  name : IsLine name
  scope : IsLine entry.scope.text
  parameters : ∀ names ∈ entry.parameters, ∀ name ∈ names, IsLine name
  address : IsLine entry.pseudoAddress

theorem Scope.isLine_text {scope : Scope} (h : ∀ owner, scope = .function owner → IsLine owner) :
    IsLine scope.text := by
  cases scope with
  | global => decide
  | function owner => exact h owner rfl

theorem isPlain_of_mem_symbols {source : Source} {name : String} {entry : SymbolEntry}
    (h : (name, entry) ∈ source.symbols.entries) : entry.IsPlain name := by
  obtain ⟨candidate, hc, he⟩ := Source.exists_candidate h
  cases he
  exact ⟨(Candidate.isSpelled_name hc).isLine,
    Scope.isLine_text fun owner hs => (Candidate.isSpelled_owner hc hs).isLine,
    fun names hn name hm => (Candidate.isSpelled_parameters hc hn name hm).isLine,
    PseudoAddress.isLine_ofName _ _⟩

namespace Plain

theorem isLine_parameters {names : List String} (h : ∀ name ∈ names, IsLine name) :
    IsLine ("  (" ++ ", ".intercalate names ++ ")") := by
  have hnames : IsLine (", ".intercalate names) := Text.isLine_intercalate (by decide) h
  exact Text.isLine_append.2 ⟨Text.isLine_append.2 ⟨by decide, hnames⟩, by decide⟩

theorem isLine_position (entry : SymbolEntry) : IsLine s!" {entry.line}:{entry.column}  " := by
  simp only [Text.isLine_append, Text.isLine_toString]
  decide

theorem isLine_kind (kind : SymbolKind) : IsLine kind.name := by
  cases kind <;> decide

theorem breaks_symbolRow {name : String} {entry : SymbolEntry} (h : entry.IsPlain name) :
    breaks (symbolRow name entry) = breaks entry.declaredType := by
  have hblank : breaks "  " = 0 ∧ breaks " " = 0 := by decide
  unfold symbolRow
  simp only [Text.breaks_append, Text.breaks_padRight, isLine_iff.1 h.name,
    isLine_iff.1 (isLine_kind entry.kind), isLine_iff.1 h.scope, isLine_iff.1 h.address,
    isLine_iff.1 (isLine_position entry), hblank]
  split
  · next names hn =>
    rw [isLine_iff.1 (isLine_parameters (h.parameters names hn))]
    omega
  · change _ + 0 = _
    omega

theorem prefix_symbolRow (name : String) (entry : SymbolEntry) :
    ("  " ++ name).toList <+: (symbolRow name entry).toList := by
  unfold symbolRow
  simp only [Text.padRight, String.toList_append, List.append_assoc]
  exact (List.prefix_append_right_inj _).2 (List.prefix_append _ _)

/-- Whether lines are the heading of a symbol table and one row for each entry, which begins with
two spaces and the entry's name. -/
def HasRows (entries : List (String × SymbolEntry)) (lines : List String) : Prop :=
  ∃ rows, lines = "Symbols:" :: rows ∧
    List.Forall₂ (fun entry row => ("  " ++ entry.1).toList <+: row.toList) entries rows

theorem HasRows.length_eq {entries : List (String × SymbolEntry)} {lines : List String}
    (h : HasRows entries lines) : lines.length = entries.length + 1 := by
  obtain ⟨rows, rfl, hrows⟩ := h
  rw [List.length_cons, hrows.length_eq]

/-- The lines of a table's rows, below its heading. -/
def rowLines (entries : List (String × SymbolEntry)) : List String :=
  entries.flatMap fun row => Text.lines (symbolRow row.1 row.2 ++ "\n")

theorem lines_symbolSection (table : SymbolTable) :
    Text.lines (symbolSection table) = "Symbols:" :: rowLines table.entries := by
  have hheading : IsLine "Symbols:" := by decide
  rw [symbolSection, unlines, Text.lines_join, List.flatMap_cons, List.flatMap_map,
    hheading.lines_concat]
  rfl

section

variable {entries : List (String × SymbolEntry)} (h : ∀ row ∈ entries, row.2.IsPlain row.1)
include h

theorem length_rowLines : (rowLines entries).length =
    (entries.map fun row => breaks row.2.declaredType).sum + entries.length := by
  induction entries with
  | nil => rfl
  | cons row entries ih =>
    rw [List.forall_mem_cons] at h
    have hrest := ih h.2
    rw [rowLines] at hrest
    rw [rowLines, List.flatMap_cons, List.length_append, hrest, Text.length_lines_concat,
      breaks_symbolRow h.1, List.map_cons, List.sum_cons, List.length_cons]
    omega

/-- Each row is one line just if no declared type has a line break. -/
theorem hasRows_iff : HasRows entries ("Symbols:" :: rowLines entries) ↔
    ∀ row ∈ entries, IsLine row.2.declaredType := by
  constructor
  · intro hrows row hm
    have hlength := hrows.length_eq
    rw [List.length_cons, length_rowLines h] at hlength
    have hsum : (entries.map fun row => breaks row.2.declaredType).sum = 0 := by omega
    rw [isLine_iff]
    exact List.sum_eq_zero_iff_forall_eq_nat.1 hsum _ (List.mem_map_of_mem hm)
  · intro hlines
    have hrow : ∀ row ∈ entries, Text.lines (symbolRow row.1 row.2 ++ "\n") =
        [symbolRow row.1 row.2] := by
      intro row hm
      have hline := hlines row hm
      rw [isLine_iff, ← breaks_symbolRow (h row hm), ← isLine_iff] at hline
      exact hline.lines_concat
    have hrows : rowLines entries = entries.map fun row => symbolRow row.1 row.2 := by
      rw [rowLines, List.flatMap_def, List.map_congr_left hrow, ← List.flatMap_def,
        List.map_eq_flatMap]
    refine ⟨_, rfl, ?_⟩
    rw [hrows, List.forall₂_map_right_iff]
    exact List.forall₂_same.2 fun row _ => prefix_symbolRow row.1 row.2

end

/-- The symbols of a text are written in the order of their names. A row begins with two spaces and
the name and has as many line breaks as the declared type, so that each entry has one line just if
no declared type has a line break. -/
theorem rows_symbolTable (text : String) :
    let table := symbolTable text
    SymbolTable.IsOrdered table.entries ∧
    (∀ name entry, (name, entry) ∈ table.entries →
      ("  " ++ name).toList <+: (symbolRow name entry).toList ∧
        breaks (symbolRow name entry) = breaks entry.declaredType) ∧
    Text.lines (symbolSection table) = "Symbols:" :: rowLines table.entries ∧
    (HasRows table.entries (Text.lines (symbolSection table)) ↔
      ∀ name entry, (name, entry) ∈ table.entries → IsLine entry.declaredType) ∧
    ∀ tree, render ⟨tree, table, [], none⟩ =
      (tree.elim "" fun tree => treeText tree ++ "\n") ++ symbolSection table := by
  intro table
  have hplain : ∀ row ∈ table.entries, row.2.IsPlain row.1 := fun row hm =>
    isPlain_of_mem_symbols hm
  refine ⟨SymbolTable.isOrdered_registerAll _, fun name entry hm => ⟨prefix_symbolRow name entry,
    breaks_symbolRow (hplain _ hm)⟩, lines_symbolSection table, ?_, fun tree => ?_⟩
  · rw [lines_symbolSection, hasRows_iff hplain, Prod.forall]
  · have hempty : diagnosticSection [] = "" ∧ outputSection none = "" := ⟨rfl, rfl⟩
    rw [render, hempty.1, hempty.2, String.append_empty, String.append_empty]
    cases tree <;> rfl

/-- The words of a type may stand on two lines. -/
theorem not_hasRows : ¬ HasRows (symbolTable "unsigned\nint x;").entries
    (Text.lines (render ⟨none, symbolTable "unsigned\nint x;", [], none⟩)) := by
  intro hrows
  have hlength := hrows.length_eq
  rw [symbolTable, Source.symbols, Candidate.collect, List.mergeSort_of_pairwise] at hlength
  · revert hlength
    decide +kernel
  · decide +kernel

end Plain

end CodeOutline
