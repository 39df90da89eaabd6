import CodeOutline.Proofs.Order
import CodeOutline.Proofs.Source.Mask
import CodeOutline.Proofs.Symbol.Candidate
import Mathlib.Data.Finset.Card

namespace CodeOutline

section

variable {α : Type} {name : α → String} {kind : α → SymbolKind} {key : α → Nat} {sought : String}
  {declared : List α} {a : α}

theorem key_le_of_getLast? (hs : declared.Pairwise fun left right => key left ≤ key right)
    (h : declared.getLast? = some a) : ∀ b ∈ declared, key b ≤ key a := by
  obtain ⟨front, rfl⟩ := List.getLast?_eq_some_iff.1 h
  intro b hb
  rcases List.mem_append.1 hb with hb | hb
  · exact (List.pairwise_append.1 hs).2.2 b hb a (List.mem_singleton_self a)
  · rw [List.mem_singleton.1 hb]

theorem key_le_of_preferred? (hs : declared.Pairwise fun left right => key left ≤ key right)
    (h : preferred? name kind sought declared = some a) :
    ∀ b ∈ declared, name b = sought → kind b = .function → key b ≤ key a := by
  intro b hb hn hk
  have hm : b ∈ declared.filter fun a => name a = sought ∧ kind a = .function :=
    List.mem_filter.2 ⟨hb, decide_eq_true ⟨hn, hk⟩⟩
  have hl := List.getLast?_eq_some_getLast (List.ne_nil_of_mem hm)
  rw [preferred?, hl, Option.some_or] at h
  rw [h] at hl
  exact key_le_of_getLast? (hs.filter _) hl b hm

/-- Where anything else than a function stands for a name, nothing of the name is a function, and
nothing of it comes behind. -/
theorem last_of_preferred? (hs : declared.Pairwise fun left right => key left ≤ key right)
    (h : preferred? name kind sought declared = some a) (hk : kind a ≠ .function) :
    ∀ b ∈ declared, name b = sought → kind b ≠ .function ∧ key b ≤ key a := by
  have hfunctions : (preferred? name kind sought declared).filter (fun a => kind a = .function) =
      (declared.filter fun a => name a = sought ∧ kind a = .function).getLast? :=
    preferred?_filter_function declared
  rw [h, Option.filter_some, if_neg (by simpa using hk), eq_comm, List.getLast?_eq_none_iff]
    at hfunctions
  rw [preferred?, hfunctions, List.getLast?_nil, Option.none_or] at h
  intro b hb hn
  constructor
  · intro hb'
    exact List.filter_eq_nil_iff.1 hfunctions b hb (decide_eq_true ⟨hn, hb'⟩)
  · exact key_le_of_getLast? (hs.filter _) h b (List.mem_filter.2 ⟨hb, decide_eq_true hn⟩)

end

namespace SymbolTable

variable {table : SymbolTable}

theorem IsOrdered.nodup (h : IsOrdered table.entries) : (table.entries.map Prod.fst).Nodup := by
  rw [List.Nodup, List.pairwise_map]
  refine h.imp fun hlt he => ?_
  rw [he] at hlt
  exact String.lt_irrefl _ hlt

theorem size_registerAll (entries : List (String × SymbolEntry)) :
    (empty.registerAll entries).size = (entries.map Prod.fst).toFinset.card := by
  have hnames : ((empty.registerAll entries).entries.map Prod.fst).toFinset =
      (entries.map Prod.fst).toFinset := by
    ext name
    rw [List.mem_toFinset, List.mem_toFinset, mem_keys, get?_registerAll, Option.isSome_map,
      preferred?_isSome, List.mem_map]
  rw [← hnames, List.toFinset_card_of_nodup (isOrdered_registerAll entries).nodup, List.length_map,
    size]

end SymbolTable

/-- What a text declares: functions with their parameters, variables outside all bodies and
variables in the bodies. -/
inductive Declares (text : Slice) : Candidate → Prop
  | function {function : FunctionDefinition} (h : function ∈ FunctionDefinition.findAll text) :
    Declares text (Candidate.definition function)
  | parameter {function : FunctionDefinition} {parameter : Parameter}
    (h : function ∈ FunctionDefinition.findAll text) (hp : parameter ∈ function.parameters) :
    Declares text ⟨parameter.name, .parameter, parameter.declaredType, .function function.name,
      parameter.offset, none⟩
  | globalVariable {declaration : Declaration}
    (h : declaration ∈ Declaration.findGlobals text (FunctionDefinition.findAll text)) :
    Declares text (.ofVariable .global declaration)
  | localVariable {function : FunctionDefinition} {declaration : Declaration}
    (h : function ∈ FunctionDefinition.findAll text) (hd : declaration ∈ Candidate.locals function) :
    Declares text (.ofVariable
      (Candidate.scopeAt (FunctionDefinition.findAll text) declaration.nameOffset) declaration)

/-- Of all that a text declares under a name, the function whose name stands last, or else, where
none is a function, a declaration whose name stands last. -/
structure Candidate.Prevails (text : Slice) (candidate : Candidate) : Prop where
  declared : Declares text candidate
  function : candidate.kind = .function → ∀ other, Declares text other →
    other.name = candidate.name → other.kind = .function → other ≠ candidate →
      other.offset < candidate.offset
  declaration : candidate.kind ≠ .function → ∀ other, Declares text other →
    other.name = candidate.name → other.kind ≠ .function ∧ other.offset ≤ candidate.offset

namespace Candidate

variable {text : Slice} {candidate : Candidate} {name : String}

theorem mem_collect_iff_declares : candidate ∈ collect text ↔ Declares text candidate := by
  rw [mem_collect]
  constructor
  · rintro (⟨function, hf, hm⟩ | ⟨declaration, hd, rfl⟩ | ⟨function, hf, declaration, hd, rfl⟩)
    · rcases mem_ofFunction.1 hm with rfl | ⟨parameter, hp, rfl⟩
      · exact .function hf
      · exact .parameter hf hp
    · exact .globalVariable hd
    · exact .localVariable hf hd
  · intro h
    cases h with
    | function hf => exact .inl ⟨_, hf, mem_ofFunction.2 (.inl rfl)⟩
    | parameter hf hp => exact .inl ⟨_, hf, mem_ofFunction.2 (.inr ⟨_, hp, rfl⟩)⟩
    | globalVariable hd => exact .inr (.inl ⟨_, hd, rfl⟩)
    | localVariable hf hd => exact .inr (.inr ⟨_, hf, _, hd, rfl⟩)

theorem eq_of_function_offset (hf : ∀ cell ∈ text.cells, cell.IsFaithful) {other : Candidate}
    (h : Declares text candidate) (h' : Declares text other) (hk : candidate.kind = .function)
    (hk' : other.kind = .function) (ho : other.offset = candidate.offset) : other = candidate := by
  cases h with
  | function hfunction =>
    cases h' with
    | function hother =>
      have hp := (FunctionDefinition.pairwise_findAll hf).imp And.right
      rw [eq_of_key_eq hp hother hfunction ho]
    | _ => cases hk'
  | _ => cases hk

theorem prevails_of_preferred? (hf : ∀ cell ∈ text.cells, cell.IsFaithful)
    (h : preferred? Candidate.name Candidate.kind name (collect text) = some candidate) :
    Prevails text candidate := by
  have hs := pairwise_mergeSort Candidate.offset
    ((FunctionDefinition.findAll text).flatMap ofFunction ++
      (Declaration.findGlobals text (FunctionDefinition.findAll text)).map (ofVariable .global) ++
      ((FunctionDefinition.findAll text).flatMap locals).map fun declaration =>
        ofVariable (scopeAt (FunctionDefinition.findAll text) declaration.nameOffset) declaration)
  obtain ⟨hm, rfl⟩ := mem_of_preferred? h
  have hdeclared := mem_collect_iff_declares.1 hm
  refine ⟨hdeclared, fun hk other ho hn hk' hne => ?_, fun hk other ho hn => ?_⟩
  · have hle := key_le_of_preferred? hs h other (mem_collect_iff_declares.2 ho) hn hk'
    refine Nat.lt_of_le_of_ne hle fun he => hne ?_
    exact eq_of_function_offset hf hdeclared ho hk hk' he
  · exact last_of_preferred? hs h hk other (mem_collect_iff_declares.2 ho) hn

end Candidate

/-- Of what is registered under a name the last function stays, or else the last entry, and a table
has as many entries as names. In the table of a text the entry of a name is that of the function
that stands last, or else of a declaration that stands last, and each declared name has one. -/
theorem symbolTable_duplicates :
    (∀ registered : List (String × SymbolEntry),
      (∀ name, (SymbolTable.empty.registerAll registered).get? name =
        (preferred? Prod.fst (fun row => row.2.kind) name registered).map Prod.snd) ∧
      (SymbolTable.empty.registerAll registered).size =
        (registered.map Prod.fst).toFinset.card) ∧
    ∀ text : String,
      (∀ name entry, (symbolTable text).get? name = some entry →
        ∃ candidate, Candidate.Prevails (Source.ofString text).view candidate ∧
          Candidate.entry (Source.ofString text) candidate = (name, entry)) ∧
      ∀ candidate, Declares (Source.ofString text).view candidate →
        ((symbolTable text).get? candidate.name).isSome := by
  refine ⟨fun registered => ?_, fun text => ⟨fun name entry h => ?_, fun candidate h => ?_⟩⟩
  · exact ⟨SymbolTable.get?_registerAll registered, SymbolTable.size_registerAll registered⟩
  · rw [symbolTable, Source.get?_symbols, Option.map_eq_some_iff] at h
    obtain ⟨candidate, hp, rfl⟩ := h
    obtain ⟨_, rfl⟩ := mem_of_preferred? hp
    exact ⟨candidate, Candidate.prevails_of_preferred? (Source.isFaithful_view text) hp, rfl⟩
  · rw [symbolTable, Source.get?_symbols, Option.isSome_map, preferred?_isSome]
    exact ⟨candidate, Candidate.mem_collect_iff_declares.2 h, rfl⟩

end CodeOutline
