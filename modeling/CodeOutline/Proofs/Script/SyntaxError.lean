import CodeOutline.Proofs.Parsing
import CodeOutline.Proofs.Tree.Address
import CodeOutline.Service.Basic

namespace CodeOutline.Script

def ParseLabel.isFaulty (label : ParseLabel) : Bool :=
  label.isError || label.isMissing

namespace ParseTree

/-- A token that is missing from the text has no parts. -/
def MissingAreBare (tree : ParseTree) : Prop :=
  tree.Locally fun label parts => label.isMissing → parts = []

/-- An error or a missing token stands at the address, and no error above it. -/
def ShowsFault (tree : ParseTree) (address : List Nat) : Prop :=
  ∃ found, tree.at? address = some found ∧ found.label.isFaulty ∧
    ∀ above, above <+: address → above ≠ address →
      ∀ outer, tree.at? above = some outer → outer.label.isError = false

variable {text : Slice} {tree : ParseTree}

theorem hasError_eq_false_iff :
    tree.hasError = false ↔ tree.topmost ParseLabel.isFaulty = [] := by
  rw [Tree.topmost_eq_nil_iff, hasError, List.any_eq_false]
  simp only [Bool.not_eq_true]
  rfl

theorem isSome_errorMessage? (text : Slice) (tree : ParseTree) :
    (tree.errorMessage? text).isSome = tree.label.isFaulty := by
  rw [errorMessage?, ParseLabel.isFaulty]
  cases tree.label.isError <;> cases tree.label.isMissing <;> rfl

theorem line_errorMessage? {message : Diagnostic} (h : tree.errorMessage? text = some message) :
    message.line = tree.start.row + 1 := by
  rw [errorMessage?] at h
  split at h
  · cases h
    rfl
  · split at h
    · cases h
      rfl
    · cases h

/-- What is left to visit has the messages of its topmost faults. -/
theorem map_errors (text : Slice) (trees : List ParseTree) : (errors text trees).map some =
    (trees.flatMap (Tree.topmost ParseLabel.isFaulty)).map (errorMessage? text) := by
  induction trees using errors.induct text with
  | case1 => rw [errors]; rfl
  | case2 tree pending message hm ih =>
    have hf : tree.label.isFaulty := by
      rw [← isSome_errorMessage? text, hm]
      rfl
    rw [errors, hm, List.flatMap_cons, Tree.topmost_eq, if_pos hf, List.singleton_append,
      List.map_cons, List.map_cons, hm, ih]
  | case3 tree pending hm he ih =>
    have hf : ¬ tree.label.isFaulty := by
      rw [← isSome_errorMessage? text, hm]
      exact Bool.false_ne_true
    rw [errors, hm]
    simp only
    rw [if_pos he, ih, List.flatMap_append, List.flatMap_cons, Tree.topmost_eq _ tree, if_neg hf]
  | case4 tree pending hm he ih =>
    have hnone := hasError_eq_false_iff.1 (Bool.eq_false_iff.2 he)
    rw [errors, hm]
    simp only
    rw [if_neg he, ih, List.flatMap_cons, hnone, List.nil_append]

theorem map_errors_singleton (text : Slice) (tree : ParseTree) : (errors text [tree]).map some =
    (tree.topmost ParseLabel.isFaulty).map (errorMessage? text) := by
  rw [map_errors, List.flatMap_singleton]

theorem errors_eq_nil_iff (text : Slice) (tree : ParseTree) :
    errors text [tree] = [] ↔ ∀ label ∈ tree.walk, label.isFaulty = false := by
  rw [← Tree.topmost_eq_nil_iff, ← List.map_eq_nil_iff, map_errors_singleton, List.map_eq_nil_iff]

theorem map_line_errors (text : Slice) (tree : ParseTree) :
    (errors text [tree]).map Diagnostic.line =
      (tree.topmost ParseLabel.isFaulty).map fun fault => fault.label.start.row + 1 := by
  have hlines : ∀ fault ∈ tree.topmost ParseLabel.isFaulty,
      (errorMessage? text fault).map Diagnostic.line = some (fault.label.start.row + 1) := by
    intro fault hm
    have hf := Tree.test_of_mem_topmost hm
    rw [← isSome_errorMessage? text, Option.isSome_iff_exists] at hf
    obtain ⟨message, he⟩ := hf
    rw [he, Option.map_some, line_errorMessage? he]
    rfl
  apply (List.map_inj_right fun _ _ => Option.some.inj).1
  calc ((errors text [tree]).map Diagnostic.line).map some
      = ((errors text [tree]).map some).map (Option.map Diagnostic.line) := by
        rw [List.map_map, List.map_map]
        rfl
    _ = (tree.topmost ParseLabel.isFaulty).map
          fun fault => (errorMessage? text fault).map Diagnostic.line := by
        rw [map_errors_singleton, List.map_map]
        rfl
    _ = ((tree.topmost ParseLabel.isFaulty).map fun fault => fault.label.start.row + 1).map some := by
        rw [List.map_map]
        exact List.map_congr_left hlines

/-- Where missing tokens have no parts, nothing stands in one. -/
theorem isTopmost_iff_showsFault (h : tree.MissingAreBare) (address : List Nat) :
    tree.IsTopmost ParseLabel.isFaulty address ↔ tree.ShowsFault address := by
  constructor
  · rintro ⟨found, hf, ht, ha⟩
    refine ⟨found, hf, ht, fun above hp hne outer ho => ?_⟩
    exact (Bool.or_eq_false_iff.1 (ha above hp hne outer ho)).1
  · rintro ⟨found, hf, ht, ha⟩
    refine ⟨found, hf, ht, fun above hp hne outer ho => ?_⟩
    rw [ParseLabel.isFaulty, ha above hp hne outer ho, Bool.false_or, Bool.eq_false_iff]
    intro hm
    have hbare := List.map_eq_nil_iff.1 (h outer (Tree.mem_subtrees_of_at? ho) hm)
    obtain ⟨rest, rfl⟩ := hp
    cases rest with
    | nil => exact hne (List.append_nil above).symm
    | cons index rest =>
      rw [Tree.at?_append, ho, Option.bind_some, Tree.at?, hbare] at hf
      cases hf

end ParseTree

open Parsing (IsInherited Part Phrase)

/-- A phrase that is missing from the text has no parts, nor has any in it. -/
def IsBare (phrase : Phrase) : Prop :=
  phrase.Locally fun part parts => part.isMissing → parts = []

theorem IsBare.relabel {phrase : Phrase} (h : IsBare phrase) {change : Part → Part}
    (hc : ∀ part, (change part).isMissing = part.isMissing) : IsBare (phrase.relabel change) := by
  cases phrase with
  | node part parts =>
    rw [IsBare, Tree.locally_node] at h
    rw [IsBare, Tree.relabel, Tree.locally_node, hc]
    exact h

theorem isInherited_isBare {τ : Type} (table : Grammar.Table τ) : IsInherited table IsBare where
  token origin token := Tree.locally_leaf.2 fun _ => rfl
  missing symbol place := Tree.locally_leaf.2 fun _ => rfl
  phrase symbol production place parts h := Tree.locally_node.2 ⟨nofun, h⟩
  children {phrase} h := by
    cases phrase
    exact (Tree.locally_node.1 h).2
  asExtra h := h.relabel fun _ => rfl
  withSymbol symbol _ h := h.relabel fun _ => rfl
  weighted weight _ h := h.relabel fun _ => rfl

theorem missingAreBare_nodesOfAll {parts : List Phrase}
    (h : ∀ part ∈ parts, ∀ field title after, (∀ tree ∈ after, ParseTree.MissingAreBare tree) →
      ∀ tree ∈ nodesOf field title after part, ParseTree.MissingAreBare tree)
    (outer : Option String) (steps : List (Option String × Option Title)) {after : List ParseTree}
    (ha : ∀ tree ∈ after, tree.MissingAreBare) :
    ∀ tree ∈ nodesOfAll outer steps after parts, tree.MissingAreBare := by
  induction parts generalizing steps with
  | nil => exact ha
  | cons part parts ih =>
    obtain ⟨hpart, hparts⟩ := List.forall_mem_cons.1 h
    rw [nodesOfAll]
    split
    · exact hpart none none _ (ih hparts steps)
    · exact hpart _ _ _ (ih hparts steps.tail)

theorem missingAreBare_nodesOf {phrase : Phrase} (h : IsBare phrase) (field : Option String)
    (title : Option Title) (after : List ParseTree) (ha : ∀ tree ∈ after, tree.MissingAreBare) :
    ∀ tree ∈ nodesOf field title after phrase, tree.MissingAreBare := by
  induction phrase using Tree.induct generalizing field title after with
  | h part parts ih =>
    obtain ⟨hbare, hparts⟩ := Tree.locally_node.1 h
    have hall := missingAreBare_nodesOfAll fun child hc => ih child hc (hparts child hc)
    rw [nodesOf]
    split
    · refine List.forall_mem_cons.2 ⟨Tree.locally_node.2 ⟨fun hm => ?_, hall none _ ?_⟩, ha⟩
      · cases List.map_eq_nil_iff.1 (hbare hm)
        rfl
      · exact fun tree hm => absurd hm List.not_mem_nil
    · exact hall field _ ha

theorem missingAreBare_parse (text : String) : (parse text).MissingAreBare := by
  rw [parse]
  have hread := Parsing.parse_holds (isInherited_isBare table) scriptLexer (Cursor.ofText text)
  generalize Parsing.parse table scriptLexer (Cursor.ofText text) = found at hread ⊢
  cases found with
  | none => exact Tree.locally_leaf.2 fun _ => rfl
  | some phrase =>
    have hnodes := missingAreBare_nodesOf (hread phrase rfl) none none [] fun _ hm =>
      absurd hm List.not_mem_nil
    simp only [Option.map_some, Option.getD_some]
    generalize nodesOf none none [] phrase = nodes at hnodes ⊢
    cases nodes with
    | nil => exact Tree.locally_leaf.2 fun _ => rfl
    | cons root others => exact hnodes root List.mem_cons_self

end CodeOutline.Script

namespace CodeOutline.Pipeline

/-- The result, where running a program is an action. -/
def resultBy {m : Type → Type} [Monad m] (execute : Option (String → m Report))
    (pipeline : Pipeline) (text : String) (symbols : SymbolTable) : m AnalysisResult :=
  let tree := pipeline.tree text
  match pipeline.syntaxErrors text with
  | [] =>
    match execute with
    | none => pure ⟨tree, symbols, [], none⟩
    | some execute => do
      let report ← execute text
      return ⟨tree, symbols, report.diagnostics, report.output⟩
  | errors => pure ⟨tree, symbols, errors, none⟩

/-- Runs a program and notes its text. -/
def noting (execute : String → Report) (text : String) : StateM (List String) Report := do
  modify (· ++ [text])
  return execute text

/-- The result, and the texts that are run for it. -/
def resultNoting (pipeline : Pipeline) (text : String) (symbols : SymbolTable) :
    AnalysisResult × List String :=
  (pipeline.resultBy (pipeline.execute.map noting) text symbols).run []

theorem resultNoting_eq (pipeline : Pipeline) (text : String) (symbols : SymbolTable) :
    pipeline.resultNoting text symbols = (pipeline.result text symbols,
      if pipeline.syntaxErrors text = [] then pipeline.execute.toList.map fun _ => text else []) := by
  rw [resultNoting, resultBy.eq_def, result.eq_def]
  cases pipeline.syntaxErrors text with
  | nil => cases pipeline.execute <;> rfl
  | cons => rfl

/-- The pipeline with the syntax errors of the trees that a parser makes. -/
def reading (parser : String → Script.ParseTree) (pipeline : Pipeline) : Pipeline :=
  { pipeline with syntaxErrors := fun text => Script.ParseTree.errors (.ofString text) [parser text] }

end CodeOutline.Pipeline

namespace CodeOutline

open Script (ParseLabel ParseTree)

/-- The messages are those of the faults, which are the errors and missing tokens of a tree that
stand in no error, each on its line. -/
structure Reports (text : String) (tree : ParseTree) (faults : List ParseTree)
    (messages : List Diagnostic) : Prop where
  topmost : tree.Enumerates (tree.IsTopmost ParseLabel.isFaulty) faults
  outside : tree.MissingAreBare → tree.Enumerates tree.ShowsFault faults
  wording : messages.map some = faults.map (ParseTree.errorMessage? (.ofString text))
  lines : messages.map Diagnostic.line = faults.map fun fault => fault.label.start.row + 1

theorem reports_errors (text : String) (tree : ParseTree) :
    Reports text tree (tree.topmost ParseLabel.isFaulty)
      (ParseTree.errors (.ofString text) [tree]) where
  topmost := Tree.enumerates_topmost ..
  outside h := (Tree.enumerates_topmost ..).congr (ParseTree.isTopmost_iff_showsFault h)
  wording := ParseTree.map_errors_singleton ..
  lines := ParseTree.map_line_errors ..

/-- The messages are those of the errors and missing tokens in the parser's tree that stand in no
error. A program is run if its tree has neither, and otherwise not. -/
theorem syntaxErrors_reading (parser : String → ParseTree) (pipeline : Pipeline) (text : String)
    (symbols : SymbolTable) :
    (∃ faults, Reports text (parser text) faults ((pipeline.reading parser).syntaxErrors text)) ∧
      ((pipeline.reading parser).syntaxErrors text = [] ↔
        ∀ label ∈ (parser text).walk, label.isError = false ∧ label.isMissing = false) ∧
      (pipeline.reading parser).resultNoting text symbols =
        ((pipeline.reading parser).result text symbols,
          if ∀ label ∈ (parser text).walk, label.isError = false ∧ label.isMissing = false then
            pipeline.execute.toList.map fun _ => text
          else []) := by
  have hnil : (pipeline.reading parser).syntaxErrors text = [] ↔
      ∀ label ∈ (parser text).walk, label.isError = false ∧ label.isMissing = false := by
    simp only [← Bool.or_eq_false_iff]
    exact ParseTree.errors_eq_nil_iff (.ofString text) (parser text)
  refine ⟨⟨_, reports_errors text (parser text)⟩, hnil, ?_⟩
  rw [Pipeline.resultNoting_eq]
  simp only [hnil]
  rfl

example (execute : Option (String → Report)) (text : String) :
    ((Pipeline.script execute).reading Script.parse).syntaxErrors text =
      (Pipeline.script execute).syntaxErrors text :=
  rfl

/-- The tree of a condition whose parenthesis is not closed. -/
def unclosedCondition : ParseTree :=
  let label (kind : String) (named : Bool) (field : Option String) (start stop : Nat) : ParseLabel :=
    ⟨kind, named, field, ⟨start, 0, start⟩, ⟨stop, 0, stop⟩, false, false⟩
  .node (label "program" true none 0 11) [
    .node (label "if_statement" true none 0 11) [
      .node (label "if" false none 0 2) [],
      .node (label "parenthesized_expression" true (some "condition") 3 5) [
        .node (label "(" false none 3 4) [],
        .node (label "identifier" true none 4 5) [],
        .node { label ")" false none 5 5 with isMissing := true } []],
      .node (label "statement_block" true (some "consequence") 6 11) [
        .node (label "\x7b" false none 6 7) [],
        .node (label "expression_statement" true none 8 9) [
          .node (label "identifier" true none 8 9) []],
        .node (label "\x7d" false none 10 11) []]]]

/-- The missing parenthesis is reported and the script is not run. -/
theorem syntaxErrors_unclosedCondition :
    let script := (Pipeline.script (some fun _ => ⟨[], none⟩)).reading fun _ => unclosedCondition
    unclosedCondition.MissingAreBare ∧
      (∃ faults, unclosedCondition.Enumerates unclosedCondition.ShowsFault faults ∧
        (script.syntaxErrors "if (a \x7b b \x7d").map some =
          faults.map (ParseTree.errorMessage? (.ofString "if (a \x7b b \x7d"))) ∧
      script.syntaxErrors "if (a \x7b b \x7d" ≠ [] ∧
      (script.resultNoting "if (a \x7b b \x7d" .empty).2 = [] := by
  intro script
  have hbare : unclosedCondition.MissingAreBare := by
    rw [ParseTree.MissingAreBare, Tree.Locally]
    decide
  obtain ⟨⟨faults, hr⟩, hn, hc⟩ := syntaxErrors_reading (fun _ => unclosedCondition)
    (Pipeline.script (some fun _ => ⟨[], none⟩)) "if (a \x7b b \x7d" .empty
  have hfault : ¬ ∀ label ∈ unclosedCondition.walk,
      label.isError = false ∧ label.isMissing = false := by
    decide
  refine ⟨hbare, ⟨faults, hr.outside hbare, hr.wording⟩, fun he => hfault (hn.1 he), ?_⟩
  rw [hc, if_neg hfault]

end CodeOutline
