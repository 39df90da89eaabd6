import CodeOutline.Proofs.Order
import CodeOutline.Proofs.Program.Local
import CodeOutline.Proofs.Program.Member
import CodeOutline.Proofs.Program.Roundtrip
import CodeOutline.Proofs.Symbol.Candidate
import Mathlib.Data.List.Basic
import Mathlib.Data.List.Perm.Basic

namespace CodeOutline

open Cell (layout width)
open Slice (laid)

theorem flatMap_filterMap {α β γ : Type} (f : α → Option β) (g : β → List γ) (l : List α) :
    (l.filterMap f).flatMap g = l.flatMap fun a => (f a).toList.flatMap g := by
  induction l with
  | nil => rfl
  | cons a l ih =>
    cases h : f a with
    | none => rw [List.filterMap_cons_none h, List.flatMap_cons, h, ih]; rfl
    | some b => rw [List.filterMap_cons_some h, List.flatMap_cons, List.flatMap_cons, h, ih]; simp

theorem flatMap_perm {α β : Type} (f g h both : α → List β) (hb : ∀ a, f a ++ g a ++ h a = both a)
    (l : List α) : (l.flatMap f ++ l.flatMap g ++ l.flatMap h).Perm (l.flatMap both) := by
  have hfg := (List.flatMap_append_perm l f g).append_right (l.flatMap h)
  have hall := List.flatMap_append_perm l (fun a => f a ++ g a) h
  rw [← funext hb]
  exact hfg.trans hall

namespace Program

variable {position : Nat}

/-- In the body of a function just the variables of its statements are found. -/
theorem Function.finds (defined : Function) (h : defined.body.isOrdinary) (position : Nat) :
    Finds (position + width defined.front + 1)
      (position + width defined.front + 1 + width defined.body.print)
      (Candidate.locals (defined.definition position)) defined.body.variables := by
  obtain ⟨found, he, hf⟩ := defined.body.readsLocals h 0 (position + width defined.front + 1) []
  have hl : Candidate.locals (defined.definition position) = found := by
    rw [Candidate.locals, Slice.filterMap_statementStarts]
    rw [List.append_nil] at he
    refine he.trans ?_
    exact List.append_nil _
  rw [hl]
  exact hf

theorem parametersFrom_ascends (formals : List Formal) (position : Nat) :
    Ascends position (position + width (Delimiter.joined ',' (formals.map Formal.print)))
      ((parametersFrom position formals).map (·.offset)) := by
  have hfirst (formal : Formal) (position : Nat) :
      Ascends position (position + width formal.print) [(formal.parameter position).offset] := by
    have hn : 0 < width formal.name.chars :=
      List.length_pos_iff.2 (Cell.layout_ne_nil formal.name.ne_nil)
    refine Ascends.singleton (Nat.le_add_right _ _) ?_
    simp only [Formal.parameter, Formal.print, Cell.width_append]
    omega
  induction formals generalizing position with
  | nil => exact Ascends.nil (Nat.le_add_right _ _)
  | cons formal others ih =>
    have ho := (ih (position + width formal.print + 1)).mono (Nat.le_succ _) (Nat.le_refl _)
    have happend := (hfirst formal position).append ho
    cases others with
    | nil => exact hfirst formal position
    | cons second others =>
      refine happend.mono (Nat.le_refl _) ?_
      simp only [List.map_cons, Delimiter.joined_cons, Cell.width_append,
        Cell.width_cons_ascii (c := ',') (by decide)]
      omega

/-- What is found at a member, in the order of the text. -/
def Member.candidates (position : Nat) : Member → List Candidate
  | .declaration declared => [Candidate.ofVariable .global (declared.declaration position)]
  | .function defined =>
    Candidate.ofFunction (defined.definition position) ++
      (Candidate.locals (defined.definition position)).map
        (Candidate.ofVariable (.function defined.name.text))

theorem Function.ofFunction_ascends (defined : Function) (position : Nat) :
    Ascends position (position + width defined.front)
      ((Candidate.ofFunction (defined.definition position)).map (·.offset)) := by
  have hn : 0 < width defined.name.chars :=
    List.length_pos_iff.2 (Cell.layout_ne_nil defined.name.ne_nil)
  have hparameters := parametersFrom_ascends defined.formals
    (position + width (defined.type.print ++ (defined.name.chars ++ defined.gaps.print)) + 1 +
      width defined.inside.print)
  have hname : Ascends position
      (position + width (defined.type.print ++ (defined.name.chars ++ defined.gaps.print)) + 1 +
        width defined.inside.print) [position + width defined.type.print] := by
    refine Ascends.singleton (Nat.le_add_right _ _) ?_
    simp only [Cell.width_append]
    omega
  have hall := hname.append hparameters
  have hoffsets : (Candidate.ofFunction (defined.definition position)).map (·.offset) =
      [position + width defined.type.print] ++ (parametersFrom (position + width (defined.type.print
        ++ (defined.name.chars ++ defined.gaps.print)) + 1 + width defined.inside.print)
          defined.formals).map (·.offset) := by
    rw [Candidate.ofFunction, List.map_cons, List.map_map]
    rfl
  rw [hoffsets]
  refine hall.mono (Nat.le_refl _) ?_
  simp only [Function.front, Function.list, Cell.width_append,
    Cell.width_cons_ascii (c := '(') (by decide), Cell.width_cons_ascii (c := ')') (by decide)]
  omega

theorem Member.candidates_ascends (member : Member) (h : member.isOrdinary) (position : Nat) :
    Ascends position (position + width member.print)
      ((member.candidates position).map (·.offset)) := by
  cases member with
  | declaration declared =>
    have hn : 0 < width declared.name.chars :=
      List.length_pos_iff.2 (Cell.layout_ne_nil declared.name.ne_nil)
    refine Ascends.singleton (Nat.le_add_right _ _) ?_
    simp only [Candidate.ofVariable, Variable.declaration, Member.print, Variable.print,
      Cell.width_append]
    omega
  | function defined =>
    have hlocals := (defined.finds h position).1.mono (Nat.le_succ _) (Nat.le_refl _)
    have hall := (defined.ofFunction_ascends position).append hlocals
    rw [Member.candidates, List.map_append, List.map_map]
    refine hall.mono (Nat.le_refl _) ?_
    rw [Member.print, defined.width_print]
    omega

def candidateDeclared (candidate : Candidate) : Declared :=
  ⟨candidate.name, candidate.kind, candidate.declaredType, candidate.scope, candidate.parameters⟩

theorem parametersFrom_declared (scope : Scope) (formals : List Formal) (position : Nat) :
    (parametersFrom position formals).map (fun parameter => (⟨parameter.name, .parameter,
        parameter.declaredType, scope, none⟩ : Declared)) =
      formals.map fun formal => ⟨formal.name.text, .parameter, formal.type.text, scope, none⟩ := by
  induction formals generalizing position with
  | nil => rfl
  | cons formal others ih =>
    rw [parametersFrom, List.map_cons, List.map_cons, ih]
    rfl

theorem parametersFrom_names (formals : List Formal) (position : Nat) :
    (parametersFrom position formals).map (·.name) = formals.map (·.name.text) := by
  induction formals generalizing position with
  | nil => rfl
  | cons formal others ih =>
    rw [parametersFrom, List.map_cons, List.map_cons, ih]
    rfl

theorem Function.ofFunction_declared (defined : Function) (position : Nat) :
    (Candidate.ofFunction (defined.definition position)).map candidateDeclared =
      ⟨defined.name.text, .function, defined.type.text, .global,
          some (defined.formals.map (·.name.text))⟩ ::
        defined.formals.map fun formal => ⟨formal.name.text, .parameter, formal.type.text,
          .function defined.name.text, none⟩ := by
  let start := position + width (defined.type.print ++ (defined.name.chars ++
    defined.gaps.print)) + 1 + width defined.inside.print
  have hnames : (defined.definition position).parameterNames =
      defined.formals.map (·.name.text) := parametersFrom_names defined.formals start
  have hformals := parametersFrom_declared (.function defined.name.text) defined.formals start
  rw [Candidate.ofFunction, List.map_cons, List.map_map, hnames]
  exact congrArg (List.cons _) hformals

theorem Member.candidates_declared (member : Member) (h : member.isOrdinary) (position : Nat) :
    (member.candidates position).map candidateDeclared = member.declared := by
  cases member with
  | declaration declared => rfl
  | function defined =>
    have hlocals := congrArg (List.map fun found : String × String =>
      (⟨found.1, .variable, found.2, .function defined.name.text, none⟩ : Declared))
      (defined.finds h position).2
    rw [List.map_map, List.map_map] at hlocals
    rw [Member.candidates, Member.declared, Function.declared, List.map_append,
      defined.ofFunction_declared, List.map_map, List.cons_append]
    exact congrArg (fun others => _ :: (_ ++ others)) hlocals

variable (members : List (Gaps × Member)) (gaps : Gaps)

/-- The functions of a program, at their places. -/
def functionsFrom (position : Nat) (members : List (Gaps × Member)) : List FunctionDefinition :=
  (placed position members).filterMap fun (position, member) => member.definition? position

theorem separate_functionsFrom (position : Nat) :
    Candidate.Separate (functionsFrom position members) := by
  refine List.Pairwise.filterMap _ ?_ (pairwise_placed members position)
  rintro ⟨start, member⟩ ⟨start', member'⟩ h function hf function' hf'
  cases member with
  | declaration declared => cases hf
  | function defined =>
    cases member' with
    | declaration declared => cases hf'
    | function defined' =>
      cases hf
      cases hf'
      simp only [Member.print, defined.width_print] at h
      simp only [FunctionDefinition.extent, Function.definition, Option.getD_some]
      omega

theorem map_locals (h : ∀ entry ∈ members, entry.2.isOrdinary) {function : FunctionDefinition}
    (hm : function ∈ functionsFrom 0 members) :
    (Candidate.locals function).map (fun declaration => Candidate.ofVariable
        (Candidate.scopeAt (functionsFrom 0 members) declaration.nameOffset) declaration) =
      (Candidate.locals function).map (Candidate.ofVariable (.function function.name)) := by
  obtain ⟨start, defined, hplaced, rfl⟩ := mem_definitions hm
  obtain ⟨gaps, hmember⟩ := mem_members_of_placed hplaced
  obtain ⟨⟨_, _, hbounds⟩, _⟩ := defined.finds (h _ hmember) start
  apply List.map_congr_left
  intro declaration hd
  have hoffset := hbounds _ (List.mem_map_of_mem hd)
  have hcontains := Function.contains_iff.2
    ⟨Nat.le_trans (Nat.le_succ _) hoffset.1, Nat.le_of_lt hoffset.2⟩
  rw [Candidate.scopeAt_of_contains (separate_functionsFrom members 0) hm hcontains]

theorem pairwise_candidates (h : ∀ entry ∈ members, entry.2.isOrdinary) (position : Nat) :
    ((placed position members).flatMap fun (position, member) =>
      member.candidates position).Pairwise fun left right => left.offset < right.offset := by
  have hascends : ∀ entry ∈ placed position members,
      Ascends entry.1 (entry.1 + width entry.2.print)
        ((entry.2.candidates entry.1).map (·.offset)) := by
    rintro ⟨start, member⟩ hm
    obtain ⟨gaps, hmember⟩ := mem_members_of_placed hm
    exact member.candidates_ascends (h _ hmember) start
  rw [List.pairwise_flatMap]
  refine ⟨fun entry hm => List.pairwise_map.1 (hascends entry hm).2.1, ?_⟩
  refine (pairwise_placed members position).imp_of_mem ?_
  intro left right hl hr hle a ha b hb
  have hal := (hascends left hl).2.2 _ (List.mem_map_of_mem ha)
  have hbr := (hascends right hr).2.2 _ (List.mem_map_of_mem hb)
  omega

theorem collect_laid (h : ∀ entry ∈ members, entry.2.isOrdinary) :
    Candidate.collect (laid 0 (printMembers members ++ gaps.print)) =
      (placed 0 members).flatMap fun (position, member) => member.candidates position := by
  have hfunctions : FunctionDefinition.findAll (laid 0 (printMembers members ++ gaps.print)) =
      functionsFrom 0 members := findAll_laid members gaps
  have hglobals : (Declaration.findGlobals (laid 0 (printMembers members ++ gaps.print))
      (functionsFrom 0 members)).map (Candidate.ofVariable .global) =
        (placed 0 members).flatMap fun (position, member) =>
          (member.declaration? position).toList.map (Candidate.ofVariable .global) := by
    rw [functionsFrom, findGlobals_laid, List.filterMap_eq_flatMap_toList, List.map_flatMap]
  have hlocals : ((functionsFrom 0 members).flatMap Candidate.locals).map (fun declaration =>
      Candidate.ofVariable (Candidate.scopeAt (functionsFrom 0 members) declaration.nameOffset)
        declaration) = (placed 0 members).flatMap fun (position, member) =>
          (member.definition? position).toList.flatMap fun function =>
            (Candidate.locals function).map (Candidate.ofVariable (.function function.name)) := by
    rw [List.map_flatMap, List.flatMap_congr fun function hm => map_locals members h hm,
      functionsFrom, flatMap_filterMap]
  have hnames : (functionsFrom 0 members).flatMap Candidate.ofFunction =
      (placed 0 members).flatMap fun (position, member) =>
        (member.definition? position).toList.flatMap Candidate.ofFunction := by
    rw [functionsFrom, flatMap_filterMap]
  rw [Candidate.collect]
  simp only [hfunctions, hnames, hglobals, hlocals]
  refine mergeSort_eq_of_perm Candidate.offset (flatMap_perm _ _ _ _ ?_ _)
    (pairwise_candidates members h 0)
  rintro ⟨start, member⟩
  cases member with
  | declaration declared => rfl
  | function defined =>
    simp only [Member.definition?, Member.declaration?, Option.toList_some, Option.toList_none,
      List.flatMap_singleton, List.map_nil, List.append_nil]
    rfl

theorem view_text (program : Program) : (Source.ofString program.text).view =
    laid 0 (printMembers program.members ++ program.gaps.print) := by
  rw [Source.view, masked_eq_cells, Source.ofString, text, String.toList_ofList, laid]

/-- What is found in the text of a program is what the program declares. -/
theorem collect_text (program : Program) (h : program.isOrdinary) :
    (Candidate.collect (Source.ofString program.text).view).map candidateDeclared =
      program.declared := by
  have hmembers : ∀ entry ∈ program.members, entry.2.isOrdinary := List.all_eq_true.1 h
  have hplaced : (placed 0 program.members).flatMap (fun entry =>
      (entry.2.candidates entry.1).map candidateDeclared) =
        (placed 0 program.members).flatMap fun entry => entry.2.declared := by
    apply List.flatMap_congr
    rintro ⟨start, member⟩ hm
    obtain ⟨gaps, hmember⟩ := mem_members_of_placed hm
    exact member.candidates_declared (hmembers _ hmember) start
  rw [view_text, collect_laid _ _ hmembers, List.map_flatMap, hplaced, declared,
    List.flatMap_def, List.flatMap_def, map_placed Member.declared]

/-- What a symbol table says of a name, besides the place of its declaration. -/
def profile (name : String) (entry : SymbolEntry) : Declared :=
  ⟨name, entry.kind, entry.declaredType, entry.scope, entry.parameters⟩

theorem get?_symbols (source : Source) (name : String) :
    (source.symbols.get? name).map (profile name) =
      preferred? Declared.name Declared.kind name
        ((Candidate.collect source.view).map candidateDeclared) := by
  have hdeclared : preferred? Declared.name Declared.kind name
      ((Candidate.collect source.view).map candidateDeclared) =
        (preferred? Candidate.name Candidate.kind name (Candidate.collect source.view)).map
          candidateDeclared := preferred?_map _
  rw [Source.get?_symbols, hdeclared]
  cases hf : preferred? Candidate.name Candidate.kind name (Candidate.collect source.view) with
  | none => rfl
  | some candidate =>
    have hn := (mem_of_preferred? hf).2
    simp only [Option.map_some, profile, Candidate.entry, candidateDeclared, hn]

/-- The symbol table of a program has an entry for each declared name and for nothing else: the last
function of that name, or else its last declaration. -/
theorem symbolTable_text (program : Program) (h : program.isOrdinary) :
    (∀ name, name ∈ (symbolTable program.text).entries.map Prod.fst ↔
      ∃ declared ∈ program.declared, declared.name = name) ∧
    (∀ name, ((symbolTable program.text).get? name).map (profile name) =
      preferred? Declared.name Declared.kind name program.declared) ∧
    symbolTable? program.text =
      if program.declared.all (fun declared => PseudoAddress.fits declared.name) then
        some (symbolTable program.text)
      else none := by
  have hget (name : String) : ((symbolTable program.text).get? name).map (profile name) =
      preferred? Declared.name Declared.kind name program.declared := by
    rw [symbolTable, get?_symbols, collect_text program h]
  refine ⟨fun name => ?_, hget, ?_⟩
  · rw [SymbolTable.mem_keys, ← preferred?_isSome Declared.kind, ← hget, Option.isSome_map]
  · rw [symbolTable?, symbolTable, ← collect_text program h, List.all_map]
    rfl

/-- In the sample the function keeps its name and the variable in its body takes over the global
one's. -/
theorem symbolTable_sample :
    sample.isOrdinary ∧
    ((symbolTable sample.text).get? "g").map (profile "g") =
      some ⟨"g", .function, "char *", .global, some ["s", "m"]⟩ ∧
    ((symbolTable sample.text).get? "t").map (profile "t") =
      some ⟨"t", .variable, "int", .function "g", none⟩ ∧
    ((symbolTable sample.text).get? "i").map (profile "i") =
      some ⟨"i", .variable, "int", .function "g", none⟩ ∧
    "add" ∉ (symbolTable sample.text).entries.map Prod.fst ∧
    symbolTable? sample.text = some (symbolTable sample.text) := by
  obtain ⟨hkeys, hget, hfits⟩ := symbolTable_text sample rfl
  refine ⟨rfl, ?_, ?_, ?_, ?_, ?_⟩
  · rw [hget]
    decide +kernel
  · rw [hget]
    decide +kernel
  · rw [hget]
    decide +kernel
  · rw [hkeys]
    decide +kernel
  · rw [hfits, if_pos (by decide +kernel)]

end Program

end CodeOutline
