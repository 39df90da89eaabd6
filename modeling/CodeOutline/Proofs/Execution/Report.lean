import CodeOutline.Service.Basic

namespace CodeOutline

variable {diagnostics : List Diagnostic}

namespace CompiledProgram

variable {tools : ToolSettings} {compiled ran : Attempt} {outcome : Outcome}

def succeeds : Attempt → Bool
  | .ok outcome => outcome.ending.isSuccess
  | .error _ => false

/-- Whether the compiler fails without a message that is more than a warning. -/
def IsSilent (compiled : Attempt) : Prop :=
  ∃ outcome, compiled = .ok outcome ∧ outcome.ending ≠ .exited 0 ∧ outcome.ending ≠ .timedOut ∧
    Text.isBlank outcome.errors = false ∧ CompilerMessage.parse outcome.errors ≠ [] ∧
      ∀ message ∈ CompilerMessage.parse outcome.errors, message.isError = false

theorem compileFailure?_of_failure (hs : outcome.ending ≠ .exited 0)
    (ht : outcome.ending ≠ .timedOut) : compileFailure? tools (.ok outcome) =
      if Text.isBlank outcome.errors then
        some (.failedWith (tools.compiler ++ " exited with " ++ outcome.ending.text))
      else some (.failed (CompilerMessage.ofFailure outcome.errors)) := by
  rw [compileFailure?]
  split
  · next he => exact absurd he hs
  · next he => exact absurd he ht
  · rfl

theorem compileFailure?_of_succeeds (h : succeeds compiled) :
    compileFailure? tools compiled = none := by
  cases compiled with
  | error error => cases h
  | ok outcome =>
    have he : outcome.ending = .exited 0 := of_decide_eq_true h
    rw [compileFailure?, he]
    rfl

/-- A message that is not parsed is an error, and a parsed one if it is no warning about a line. -/
theorem any_isError_ofFailure (errors : String) :
    (CompilerMessage.ofFailure errors).any Diagnostic.isError = false ↔
      CompilerMessage.parse errors ≠ [] ∧
        ∀ message ∈ CompilerMessage.parse errors, message.isError = false := by
  rw [CompilerMessage.ofFailure]
  split
  · next hp =>
    constructor
    · intro h
      cases h
    · intro h
      exact absurd hp h.1
  · next messages hne =>
    rw [List.any_eq_false]
    simp only [Bool.not_eq_true]
    exact ⟨fun h => ⟨hne, h⟩, And.right⟩

/-- A failed compilation is reported as an error unless it is silent. -/
theorem compileFailure?_spec (tools : ToolSettings) (h : succeeds compiled = false) :
    ∃ report, compileFailure? tools compiled = some report ∧
      (report.diagnostics.any Diagnostic.isError = false ↔ IsSilent compiled) := by
  cases compiled with
  | error error =>
    refine ⟨_, rfl, ⟨fun ha => ?_, ?_⟩⟩
    · cases error <;> cases ha
    · rintro ⟨outcome, ho, _⟩
      cases ho
  | ok outcome =>
    have hs : outcome.ending ≠ .exited 0 := of_decide_eq_false h
    by_cases ht : outcome.ending = .timedOut
    · refine ⟨_, by rw [compileFailure?, ht], ⟨(fun ha => by cases ha), ?_⟩⟩
      rintro ⟨outcome', ho, _, hne, _⟩
      cases ho
      exact absurd ht hne
    rw [compileFailure?_of_failure hs ht]
    cases hb : Text.isBlank outcome.errors with
    | true =>
      refine ⟨_, rfl, ⟨(fun ha => by cases ha), ?_⟩⟩
      rintro ⟨outcome', ho, _, _, hn, _⟩
      cases ho
      exact absurd (hb.symm.trans hn) (by simp)
    | false =>
      refine ⟨_, rfl, (any_isError_ofFailure outcome.errors).trans ⟨?_, ?_⟩⟩
      · rintro ⟨hne, hall⟩
        exact ⟨outcome, rfl, hs, ht, hb, hne, hall⟩
      · rintro ⟨outcome', ho, _, _, _, hne, hall⟩
        cases ho
        exact ⟨hne, hall⟩

theorem any_isError_runReport (h : succeeds ran = false) :
    (runReport tools diagnostics ran).diagnostics.any Diagnostic.isError := by
  cases ran with
  | error error => rfl
  | ok outcome =>
    have hs : outcome.ending ≠ .exited 0 := of_decide_eq_false h
    have hfailure : (runFailure tools outcome.ending).any Diagnostic.isError := by
      unfold runFailure
      split
      · next he => exact absurd he hs
      · rfl
      · rfl
    rw [runReport, List.any_append, hfailure, Bool.or_true]

/-- Where a step fails, the result has errors but for a silent compilation. -/
theorem hasErrors_of_failure (tools : ToolSettings) (compiled ran : Attempt) (text : String)
    (symbols : SymbolTable) (h : (succeeds compiled && succeeds ran) = false) :
    ((Pipeline.outline (some fun _ => report tools compiled ran)).result text symbols).hasErrors =
      false ↔ IsSilent compiled := by
  change (report tools compiled ran).diagnostics.any Diagnostic.isError = false ↔ _
  rw [report]
  cases hc : succeeds compiled with
  | false =>
    obtain ⟨failure, hf, hiff⟩ := compileFailure?_spec tools hc
    rw [hf, Option.getD_some]
    exact hiff
  | true =>
    rw [hc, Bool.true_and] at h
    rw [compileFailure?_of_succeeds hc, Option.getD_none, any_isError_runReport h]
    constructor
    · intro ha
      cases ha
    · rintro ⟨outcome, rfl, hs, _⟩
      exact absurd (of_decide_eq_true hc) hs

/-- What a compiler writes of a program that calls a function nobody has defined: it warns of the
call, and the failure of the linker is no message about a line. -/
def undefinedCall : Attempt :=
  .ok ⟨.exited 1, "", "main.c:1:14: warning: implicit declaration of function 'f'\n" ++
    "/usr/bin/ld: main.c:(.text+0xa): undefined reference to 'f'\n" ++
    "collect2: error: ld returned 1 exit status\n"⟩

/-- A failed link is passed over, while a message that cannot be parsed is an error. -/
theorem hasErrors_undefinedCall :
    ((Pipeline.outline (some fun _ => report {} undefinedCall undefinedCall)).result ""
      SymbolTable.empty).hasErrors = false ∧
    ((Pipeline.outline (some fun _ => report {} (.ok ⟨.exited 1, "", "boom"⟩) undefinedCall)).result
      "" SymbolTable.empty).hasErrors = true := by
  constructor
  · rw [hasErrors_of_failure {} undefinedCall undefinedCall "" SymbolTable.empty rfl]
    refine ⟨_, rfl, by decide, by decide, ?_, ?_, ?_⟩
    · decide +kernel
    · decide +kernel
    · decide +kernel
  · rw [← Bool.not_eq_false, hasErrors_of_failure {} (.ok ⟨.exited 1, "", "boom"⟩) undefinedCall ""
      SymbolTable.empty rfl]
    rintro ⟨outcome, ho, _, _, _, hne, _⟩
    cases ho
    exact hne (by decide +kernel)

end CompiledProgram

end CodeOutline
