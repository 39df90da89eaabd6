import CodeOutline.Outline.Program
import CodeOutline.Proofs.Outline.Aligned
import CodeOutline.Proofs.Symbol.Aligned
import CodeOutline.Proofs.Text.Location
import CodeOutline.Symbol.Collect

namespace CodeOutline

namespace Wording.Aligned

variable {padded : Prop} {move : Nat → Nat} {wording wording' : Wording}

theorem isSome_eq (h : Wording.Aligned padded move wording wording') (source source' : Source) :
    (source'.wording wording').isSome = (source.wording wording).isSome := by
  cases h with
  | absent => rfl
  | words => rfl
  | quoted hs =>
    simp only [Source.wording, Source.fragment?, hs.trim.isEmpty_eq]
    split <;> rfl

theorem wording_eq (h : Wording.Aligned padded move wording wording') (hp : ¬ padded)
    (hq : ∀ slice, wording ≠ .quoted slice) (source source' : Source) :
    source'.wording wording' = source.wording wording := by
  cases h with
  | absent => rfl
  | words hw => exact congrArg some (hw hp)
  | quoted => exact absurd rfl (hq _)

end Wording.Aligned

/-- Nodes that differ by their columns and by what they quote of the text at most. -/
structure NodeLabel.Agree (label label' : NodeLabel) : Prop where
  kind_eq : label'.kind = label.kind
  relation_eq : label'.relation = label.relation
  name_eq : label'.name = label.name
  offset_eq : label'.offset = label.offset
  line_eq : label'.location.line = label.location.line
  isSome_eq : label'.rawText.isSome = label.rawText.isSome
  rawText_eq : label.kind.isDeclared → label'.rawText = label.rawText

/-- Entries that differ by their columns at most. -/
structure SymbolEntry.Agree (entry entry' : SymbolEntry) : Prop where
  kind_eq : entry'.kind = entry.kind
  declaredType_eq : entry'.declaredType = entry.declaredType
  scope_eq : entry'.scope = entry.scope
  parameters_eq : entry'.parameters = entry.parameters
  pseudoAddress_eq : entry'.pseudoAddress = entry.pseudoAddress
  offset_eq : entry'.offset = entry.offset
  line_eq : entry'.line = entry.line

/-- Tables of the same names with entries that agree. -/
def SymbolTable.Agree (table table' : SymbolTable) : Prop :=
  List.Forall₂ (fun entry entry' => entry'.1 = entry.1 ∧ SymbolEntry.Agree entry.2 entry'.2)
    table.entries table'.entries

variable {left right : String}

theorem masked_eq (h : maskText left = maskText right) :
    (Source.ofString left).masked = (Source.ofString right).masked :=
  congrArg Cell.layout (String.ofList_injective h)

theorem line_locate_eq (h : maskText left = maskText right) (offset : Nat) :
    ((Source.ofString right).locate offset).line =
      ((Source.ofString left).locate offset).line := by
  rw [Source.line_locate, Source.line_locate, masked_eq h]

theorem agree_describe (h : maskText left = maskText right) {item item' : Item}
    (hi : Item.Aligned False id item item') :
    NodeLabel.Agree ((Source.ofString left).describe item)
      ((Source.ofString right).describe item') where
  kind_eq := hi.kind_eq
  relation_eq := hi.relation_eq
  name_eq := hi.name_eq
  offset_eq := hi.offset_eq
  line_eq := by
    rw [Source.describe, Source.describe, hi.offset_eq]
    exact line_locate_eq h _
  isSome_eq := hi.wording.isSome_eq ..
  rawText_eq hk := hi.wording.wording_eq not_false (hi.unquoted hk) ..

theorem keeps_agree : SymbolTable.Keeps
    fun entry entry' => entry'.1 = entry.1 ∧ SymbolEntry.Agree entry.2 entry'.2 :=
  fun _ _ he => ⟨he.1, he.2.kind_eq⟩

theorem agree_entry (h : maskText left = maskText right) (candidate : Candidate) :
    SymbolEntry.Agree (candidate.entry (Source.ofString left)).2
      (candidate.entry (Source.ofString right)).2 :=
  ⟨rfl, rfl, rfl, rfl, rfl, rfl, line_locate_eq h _⟩

/-- Texts with one masked text have the same tree, but for columns and for what is quoted, and the
same symbols, but for columns. -/
theorem agree_of_maskText_eq (h : maskText left = maskText right) :
    Tree.Related NodeLabel.Agree (structuralTree left) (structuralTree right) ∧
      Option.Rel SymbolTable.Agree (symbolTable? left) (symbolTable? right) := by
  have hview : (Source.ofString right).view = (Source.ofString left).view := by
    rw [Source.view, Source.view, masked_eq h]
  constructor
  · rw [structuralTree, structuralTree, Source.tree, Source.tree, hview]
    have hself : Slice.Aligned False id (Source.ofString left).view (Source.ofString left).view :=
      ⟨rfl, .same fun _ _ => rfl⟩
    exact (Outline.ofText_aligned strictMono_id rfl hself).map fun _ _ => agree_describe h
  · rw [symbolTable?, symbolTable?]
    simp only [hview]
    refine rel_ite Iff.rfl (.some ?_) .none
    rw [Source.symbols, Source.symbols, hview]
    refine SymbolTable.registerAll_related keeps_agree ?_ .nil
    rw [List.forall₂_map_left_iff, List.forall₂_map_right_iff, List.forall₂_same]
    exact fun candidate _ => ⟨rfl, agree_entry h candidate⟩

/-- A literal and a comment that would be code elsewhere. -/
def hidden : String :=
  "int f(char *s) \x7b return g(s, \"; \x7d\"); \x7d // int x;"

def shown : String :=
  "int f(char *s) \x7b return g(s, \"abc\"); \x7d /* y() */"

theorem agree_hidden :
    maskText hidden = maskText shown ∧
      Tree.Related NodeLabel.Agree (structuralTree hidden) (structuralTree shown) ∧
      Option.Rel SymbolTable.Agree (symbolTable? hidden) (symbolTable? shown) :=
  ⟨by decide +kernel, agree_of_maskText_eq (by decide +kernel)⟩

end CodeOutline
