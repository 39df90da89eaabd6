import CodeOutline.Outline.Program
import CodeOutline.Proofs.Source.LineEnding
import CodeOutline.Proofs.Symbol.Aligned

namespace CodeOutline

open Text (withCarriageReturns crlfOffset)

/-- Nodes that differ by their offsets and by the text they show at most. -/
structure NodeLabel.SameSite (label label' : NodeLabel) : Prop where
  kind_eq : label'.kind = label.kind
  relation_eq : label'.relation = label.relation
  name_eq : label'.name = label.name
  location_eq : label'.location = label.location

/-- Entries that differ by their types, addresses and offsets at most. -/
structure SymbolEntry.SameSite (entry entry' : SymbolEntry) : Prop where
  kind_eq : entry'.kind = entry.kind
  scope_eq : entry'.scope = entry.scope
  parameters_eq : entry'.parameters = entry.parameters
  line_eq : entry'.line = entry.line
  column_eq : entry'.column = entry.column

/-- Tables of the same names with entries at the same sites. -/
def SymbolTable.SameSites (table table' : SymbolTable) : Prop :=
  List.Forall₂ (fun entry entry' => entry'.1 = entry.1 ∧ SymbolEntry.SameSite entry.2 entry'.2)
    table.entries table'.entries

variable {text : String}

theorem sameSite_describe {item item' : Item}
    (h : Item.Aligned True (crlfOffset text) item item') :
    NodeLabel.SameSite ((Source.ofString text).describe item)
      ((Source.ofString (withCarriageReturns text)).describe item') where
  kind_eq := h.kind_eq
  relation_eq := h.relation_eq
  name_eq := h.name_eq
  location_eq := by
    simp only [Source.describe, h.offset_eq]
    exact locate_withCarriageReturns ..

theorem sameSite_entry {candidate candidate' : Candidate}
    (h : Candidate.Aligned True (crlfOffset text) candidate candidate') :
    SymbolEntry.SameSite (candidate.entry (Source.ofString text)).2
      (candidate'.entry (Source.ofString (withCarriageReturns text))).2 := by
  have hlocation : (Source.ofString (withCarriageReturns text)).locate candidate'.offset =
      (Source.ofString text).locate candidate.offset := by
    rw [h.offset_eq]
    exact locate_withCarriageReturns ..
  exact ⟨h.kind_eq, h.scope_eq, h.parameters_eq, congrArg Location.line hlocation,
    congrArg Location.column hlocation⟩

theorem keeps_sameSite : SymbolTable.Keeps
    fun entry entry' => entry'.1 = entry.1 ∧ SymbolEntry.SameSite entry.2 entry'.2 :=
  fun _ _ he => ⟨he.1, he.2.kind_eq⟩

/-- Where no backslash takes a line break into a directive or a literal, a carriage return before
every line break moves no node and no symbol from its line and column. -/
theorem sameSite_withCarriageReturns (h : Mask.joinsLines (.code true) text.toList = false) :
    Tree.Related NodeLabel.SameSite (structuralTree text)
        (structuralTree (withCarriageReturns text)) ∧
      Option.Rel SymbolTable.SameSites (symbolTable? text)
        (symbolTable? (withCarriageReturns text)) := by
  have hview := Source.aligned_view h
  have hmove := Text.strictMono_crlfOffset text
  constructor
  · exact (Outline.ofText_aligned hmove rfl hview).map fun _ _ => sameSite_describe
  · have hcandidates := Candidate.collect_aligned hmove hview
    rw [symbolTable?, symbolTable?]
    refine rel_ite ?_ (.some ?_) .none
    · rw [all_eq_of_forall₂ hcandidates fun _ _ hc => congrArg PseudoAddress.fits hc.name_eq.symm]
    · exact SymbolTable.registerAll_related keeps_sameSite
        (forall₂_map hcandidates fun _ _ hc => ⟨hc.name_eq, sameSite_entry hc⟩) .nil

/-- Line ends in a comment, in a template and in a literal that is not closed. -/
def lineEndings : String :=
  "int f(int a) \x7b // \x7b\n  g(\x60a\nb\x60);\n  s = \"\n;\n  return a;\n\x7d\n"

theorem sameSite_lineEndings :
    Tree.Related NodeLabel.SameSite (structuralTree lineEndings)
        (structuralTree (withCarriageReturns lineEndings)) ∧
      Option.Rel SymbolTable.SameSites (symbolTable? lineEndings)
        (symbolTable? (withCarriageReturns lineEndings)) :=
  sameSite_withCarriageReturns (by decide +kernel)

/-- A definition over two lines, whose second line is no code unless a carriage return stands
between the backslash and the line break. -/
theorem not_sameSite_continuation :
    ¬ Tree.Related NodeLabel.SameSite (structuralTree "#define N \\\n  int x;\n")
      (structuralTree (withCarriageReturns "#define N \\\n  int x;\n")) := by
  intro h
  exact absurd h.children.length_eq (by decide +kernel)

end CodeOutline
