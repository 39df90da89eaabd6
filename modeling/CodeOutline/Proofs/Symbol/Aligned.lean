import CodeOutline.Proofs.Outline.Aligned
import CodeOutline.Proofs.Related
import CodeOutline.Proofs.Symbol.Nested
import CodeOutline.Symbol.Collect
import CodeOutline.Symbol.Table

namespace CodeOutline

namespace SymbolTable

/-- Whether entries that are related are put at one place of a table. -/
def Keeps (R : String × SymbolEntry → String × SymbolEntry → Prop) : Prop :=
  ∀ entry entry', R entry entry' → entry'.1 = entry.1 ∧ entry'.2.kind = entry.2.kind

variable {R : String × SymbolEntry → String × SymbolEntry → Prop} (hR : Keeps R)
  {table table' : SymbolTable} {entry entry' : String × SymbolEntry}
  {entries entries' : List (String × SymbolEntry)}

include hR

theorem insert_related (he : R entry entry') (h : List.Forall₂ R entries entries') :
    List.Forall₂ R (insert entry.1 entry.2 entries) (insert entry'.1 entry'.2 entries') := by
  obtain ⟨name, entry⟩ := entry
  obtain ⟨name', entry'⟩ := entry'
  obtain rfl : name' = name := (hR _ _ he).1
  induction h with
  | nil => exact .cons he .nil
  | cons hh hrest ih =>
    rw [insert, insert, (hR _ _ hh).1]
    split
    · exact .cons he hrest
    · split
      · exact .cons he (.cons hh hrest)
      · exact .cons hh ih

theorem kind_get? (h : List.Forall₂ R table.entries table'.entries) (name : String) :
    (table'.get? name).map (·.kind) = (table.get? name).map (·.kind) := by
  obtain ⟨entries⟩ := table
  obtain ⟨entries'⟩ := table'
  simp only [get?] at h ⊢
  induction h with
  | nil => rfl
  | cons hh _ ih =>
    obtain ⟨hname, hkind⟩ := hR _ _ hh
    rw [List.lookup_cons, List.lookup_cons, hname]
    split
    · exact congrArg some hkind
    · exact ih

theorem register_related (he : R entry entry') (h : List.Forall₂ R table.entries table'.entries) :
    List.Forall₂ R (table.register entry.1 entry.2).entries
      (table'.register entry'.1 entry'.2).entries := by
  have hkept := kind_get? hR h entry.1
  have hinsert := insert_related hR he h
  obtain ⟨hname, hkind⟩ := hR _ _ he
  rw [register, register]
  rw [hname] at hinsert ⊢
  cases hg : table.get? entry.1 with
  | none =>
    rw [hg, Option.map_none, Option.map_eq_none_iff] at hkept
    rw [hkept]
    exact hinsert
  | some held =>
    rw [hg, Option.map_some, Option.map_eq_some_iff] at hkept
    obtain ⟨held', hg', hk⟩ := hkept
    rw [hg']
    simp only [hk, hkind]
    split
    · exact h
    · exact hinsert

theorem registerAll_related (hn : List.Forall₂ R entries entries')
    (h : List.Forall₂ R table.entries table'.entries) :
    List.Forall₂ R (table.registerAll entries).entries (table'.registerAll entries').entries := by
  induction hn generalizing table table' with
  | nil => exact h
  | cons he _ ih => exact ih (register_related hR he h)

end SymbolTable

namespace Candidate

variable {padded : Prop} {move : Nat → Nat} {text text' slice slice' : Slice}
  {function function' : FunctionDefinition}

/-- Candidates at the place of each other. -/
structure Aligned (padded : Prop) (move : Nat → Nat) (candidate candidate' : Candidate) : Prop where
  name_eq : candidate'.name = candidate.name
  kind_eq : candidate'.kind = candidate.kind
  declaredType_eq : ¬ padded → candidate'.declaredType = candidate.declaredType
  scope_eq : candidate'.scope = candidate.scope
  offset_eq : candidate'.offset = move candidate.offset
  parameters_eq : candidate'.parameters = candidate.parameters

theorem aligned_ofVariable {scope scope' : Scope} (hs : scope' = scope)
    {declaration declaration' : Declaration}
    (h : Declaration.Aligned padded move declaration declaration') :
    Aligned padded move (ofVariable scope declaration) (ofVariable scope' declaration') :=
  ⟨h.name_eq, rfl, h.declaredType_eq, hs, h.nameOffset_eq, rfl⟩

theorem aligned_ofFunction (h : FunctionDefinition.Aligned padded move function function') :
    List.Forall₂ (Aligned padded move) (ofFunction function) (ofFunction function') := by
  refine .cons ⟨h.name_eq, rfl, h.returnType_eq, rfl, h.nameOffset_eq,
    congrArg some h.parameterNames_eq⟩ (forall₂_map h.parameters fun _ _ hp => ?_)
  exact ⟨hp.name_eq, rfl, hp.declaredType_eq, congrArg Scope.function h.name_eq, hp.offset_eq, rfl⟩

theorem local?_aligned (h : Slice.Aligned padded move slice slice') :
    Option.Rel (Declaration.Aligned padded move) (local? slice) (local? slice') := by
  refine rel_or (Declaration.read?_aligned h) (rel_bind h.heading? fun heading heading' hh => ?_)
  refine rel_ite (by rw [hh.name.text_eq]) ?_ .none
  exact rel_bind hh.inner.next? fun _ _ => Declaration.read?_aligned

theorem locals_aligned (h : FunctionDefinition.Aligned padded move function function') :
    List.Forall₂ (Declaration.Aligned padded move) (locals function) (locals function') :=
  h.body.filterMap_statementStarts .nested fun _ _ => local?_aligned

variable (hmove : StrictMono move)

include hmove

theorem scopeAt_aligned (h : Slice.Aligned padded move text text') (offset : Nat) :
    scopeAt (FunctionDefinition.findAll text') (move offset) =
      scopeAt (FunctionDefinition.findAll text) offset := by
  have hfunctions := FunctionDefinition.findAll_aligned h
  have hextents : (FunctionDefinition.findAll text').map (·.extent) =
      ((FunctionDefinition.findAll text).map (·.extent)).map (Extent.relocate move) := by
    rw [List.map_map]
    exact (map_eq_of_forall₂ hfunctions fun _ _ hf => hf.extent_eq.symm).symm
  rw [scopeAt, scopeAt, hextents, Extent.innermost?_relocate hmove]
  · cases Extent.innermost? ((FunctionDefinition.findAll text).map (·.extent)) offset with
    | none => rfl
    | some index =>
      have hfound := rel_getElem? hfunctions index
      simp only [Option.bind_some]
      generalize (FunctionDefinition.findAll text)[index]? = found at hfound ⊢
      generalize (FunctionDefinition.findAll text')[index]? = found' at hfound ⊢
      cases hfound with
      | none => rfl
      | some hf => exact congrArg Scope.function hf.name_eq
  · intro left hl right hr hin hin'
    obtain ⟨function, hf, rfl⟩ := List.mem_map.1 hl
    obtain ⟨function', hf', rfl⟩ := List.mem_map.1 hr
    exact FunctionDefinition.nested_of_contains hf hf' hin hin'

theorem collect_aligned (h : Slice.Aligned padded move text text') :
    List.Forall₂ (Aligned padded move) (collect text) (collect text') := by
  have hfunctions := FunctionDefinition.findAll_aligned h
  refine forall₂_mergeSort (List.rel_append (List.rel_append
    (List.rel_flatMap hfunctions fun _ _ => aligned_ofFunction)
    (forall₂_map (Declaration.findGlobals_aligned hmove h) fun _ _ => aligned_ofVariable rfl))
    (forall₂_map (List.rel_flatMap hfunctions fun _ _ => locals_aligned) fun _ _ hd =>
      aligned_ofVariable ?_ hd)) ?_
  · rw [hd.nameOffset_eq]
    exact scopeAt_aligned hmove h _
  · intro left right left' right' hl hr
    rw [hl.offset_eq, hr.offset_eq]
    exact decide_eq_decide.2 hmove.le_iff_le.symm

end Candidate

end CodeOutline
