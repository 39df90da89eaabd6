import CodeOutline.Proofs.Execution.Report
import CodeOutline.Proofs.Text.Scan

namespace CodeOutline

namespace RuntimeReport

variable {word text rest : List Char} {lineStart : Bool} {message : String}

theorem mem_of_namesError (h : namesError word) : 'r' ∈ word := by
  rw [namesError, Bool.or_eq_true, decide_eq_true_eq, Bool.and_assoc, Bool.and_eq_true] at h
  rcases h with rfl | ⟨h, _⟩
  · decide
  · exact (List.isSuffixOf_iff_suffix.1 h).subset (by decide)

theorem isSuffix_of_code? (h : code? text = some rest) : rest <:+ text := by
  obtain ⟨bracketed, hb, h⟩ := Option.bind_eq_some_iff.1 h
  obtain ⟨⟨word, closed⟩, hw, h⟩ := Option.bind_eq_some_iff.1 h
  rw [Text.strip?_eq_some] at hb h
  rw [hb, (Text.run?_eq_some.1 hw).1, h]
  exact ⟨[' ', '['] ++ word ++ [']'], by simp only [List.append_assoc]⟩

theorem mem_of_message? (h : message? text = some message) : 'r' ∈ text ∧ 'r' ∈ message.toList := by
  obtain ⟨⟨name, rest⟩, hn, h⟩ := Option.bind_eq_some_iff.1 h
  obtain ⟨hnames, h⟩ := Option.ite_none_right_eq_some.1 h
  obtain ⟨after, ha, h⟩ := Option.bind_eq_some_iff.1 h
  obtain ⟨line, _, h⟩ := Option.bind_eq_some_iff.1 h
  obtain ⟨rfl, _⟩ := Text.run?_eq_some.1 hn
  have hname := mem_of_namesError hnames
  have hafter : after.length ≤ rest.length := by
    have hcode : (code? rest).getD rest <:+ rest := by
      cases hc : code? rest with
      | none => exact List.suffix_refl rest
      | some coded => exact isSuffix_of_code? hc
    rw [Text.strip?_eq_some] at ha
    refine List.IsSuffix.length_le (List.IsSuffix.trans ?_ hcode)
    exact ⟨_, ha.symm⟩
  refine ⟨List.mem_append_left _ hname, ?_⟩
  cases h
  rw [String.toList_ofList]
  refine List.mem_append_left _ ?_
  have hlength : name.length ≤ (name ++ rest).length - after.length := by
    rw [List.length_append]
    omega
  rw [List.take_append, List.take_of_length_le hlength]
  exact List.mem_append_left _ hname

theorem mem_of_firstMessage? (h : firstMessage? lineStart text = some message) :
    'r' ∈ text ∧ 'r' ∈ message.toList := by
  induction text generalizing lineStart with
  | nil => cases h
  | cons c rest ih =>
    rw [firstMessage?] at h
    split at h
    · rcases Option.or_eq_some_iff.1 h with h | ⟨_, h⟩
      · exact mem_of_message? h
      · exact (ih h).imp_left (List.mem_cons_of_mem c)
    · exact (ih h).imp_left (List.mem_cons_of_mem c)

/-- The message about a report is blank just if the report is. -/
theorem isBlank_parse (report : String) :
    Text.isBlank (parse report).message = Text.isBlank report := by
  have hsolid {text : String} (h : 'r' ∈ text.toList) : Text.isBlank text = false := by
    rw [Text.isBlank, List.all_eq_false]
    exact ⟨'r', h, by decide⟩
  rw [parse]
  generalize (lineDigits? report.toList).bind (Text.decimal? UInt64.size) = line
  cases hm : firstMessage? true report.toList with
  | none =>
    have htrim := Text.isBlank_trim report
    cases line <;> exact htrim
  | some message =>
    obtain ⟨hreport, hmessage⟩ := mem_of_firstMessage? hm
    rw [hsolid hreport]
    have hread := hsolid hmessage
    cases line <;> exact hread

end RuntimeReport

namespace Text

variable {left right : String}

theorem isBlank_append : isBlank (left ++ right) = (isBlank left && isBlank right) := by
  rw [isBlank, isBlank, isBlank, String.toList_append, List.all_append]

theorem isBlank_append_left (h : isBlank left = false) : isBlank (left ++ right) = false := by
  rw [isBlank_append, h, Bool.false_and]

theorem isBlank_append_right (h : isBlank right = false) : isBlank (left ++ right) = false := by
  rw [isBlank_append, h, Bool.and_false]

end Text

/-- Whether a report has a message that is not blank. -/
def Report.IsLegible (report : Report) : Prop :=
  ∃ diagnostic ∈ report.diagnostics, Text.isBlank diagnostic.message = false

namespace ScriptProgram

open CompiledProgram (succeeds)

variable {tools : ToolSettings} {checked ran : Attempt} {outcome : Outcome}

/-- Whether a check fails and node has written nothing but white space about it. -/
def IsMute (checked : Attempt) : Prop :=
  ∃ outcome, checked = .ok outcome ∧ outcome.ending.isSuccess = false ∧
    Text.isBlank outcome.errors

theorem isLegible_failed {diagnostic : Diagnostic} :
    (Report.failed [diagnostic]).IsLegible ↔ Text.isBlank diagnostic.message = false := by
  constructor
  · rintro ⟨other, hm, hb⟩
    rwa [List.mem_singleton.1 hm] at hb
  · exact fun hb => ⟨diagnostic, List.mem_singleton_self _, hb⟩

theorem isLegible_notStarted (program : String) (error : SpawnError) :
    (Report.notStarted program error).IsLegible := by
  cases error with
  | notFound =>
    exact isLegible_failed.2 (Text.isBlank_append_left (Text.isBlank_append_right (by decide)))
  | permissionDenied | other =>
    exact isLegible_failed.2 (Text.isBlank_append_left (Text.isBlank_append_left
      (Text.isBlank_append_left (by decide))))

/-- What node has written is all that tells of a failed check. -/
theorem report_of_failedCheck (h : outcome.ending.isSuccess = false) :
    report tools (.ok outcome) ran = .failed [RuntimeReport.parse outcome.errors] := by
  rw [report, checkFailure?, h]
  rfl

theorem report_of_succeeds (h : succeeds checked) :
    report tools checked ran = runReport tools ran := by
  cases checked with
  | error error => cases h
  | ok outcome =>
    have hs : outcome.ending.isSuccess = true := h
    rw [report, checkFailure?, hs]
    rfl

theorem isLegible_failedCheck (h : succeeds checked = false) :
    (report tools checked ran).IsLegible ↔ ¬ IsMute checked := by
  cases checked with
  | error error =>
    have hmute : ¬ IsMute (.error error) := by
      rintro ⟨outcome, ho, _⟩
      cases ho
    exact iff_of_true (isLegible_notStarted tools.node error) hmute
  | ok outcome =>
    rw [report_of_failedCheck h, isLegible_failed, RuntimeReport.isBlank_parse, ← Bool.not_eq_true]
    refine not_congr ⟨fun hb => ⟨outcome, rfl, h, hb⟩, ?_⟩
    rintro ⟨other, ho, _, hb⟩
    cases ho
    exact hb

theorem isLegible_runReport (h : succeeds ran = false) : (runReport tools ran).IsLegible := by
  cases ran with
  | error error => exact isLegible_failed.2 (Text.isBlank_append_left (by decide))
  | ok outcome =>
    have hs : outcome.ending ≠ .exited 0 := of_decide_eq_false h
    change ∃ diagnostic ∈ runFailure tools outcome, Text.isBlank diagnostic.message = false
    unfold runFailure
    split
    · next he => exact absurd he hs
    · exact ⟨_, List.mem_singleton_self _, Text.isBlank_append_left
        (Text.isBlank_append_left (Text.isBlank_append_right (by decide)))⟩
    · split
      · exact ⟨_, List.mem_singleton_self _, Text.isBlank_append_left (by decide)⟩
      · next hb =>
        refine ⟨_, List.mem_singleton_self _, ?_⟩
        rw [RuntimeReport.isBlank_parse]
        exact Bool.eq_false_iff.2 hb

/-- Where a step fails, the report has a message that is not blank but for a mute check. A run that
is stopped is reported as such, while of a check only what node has written is reported, however
the check ended. -/
theorem isLegible_of_failure (tools : ToolSettings) (checked ran : Attempt)
    (h : (succeeds checked && succeeds ran) = false) :
    ((report tools checked ran).IsLegible ↔ ¬ IsMute checked) ∧
      (∀ outcome, succeeds checked → ran = .ok outcome → outcome.ending = .timedOut →
        .general (Report.timeoutMessage "execution" tools.runTimeout) ∈
          (report tools checked ran).diagnostics) ∧
      ∀ outcome, checked = .ok outcome → outcome.ending.isSuccess = false →
        report tools checked ran = .failed [RuntimeReport.parse outcome.errors] := by
  refine ⟨?_, ?_, ?_⟩
  · cases hc : succeeds checked with
    | false => exact isLegible_failedCheck hc
    | true =>
      rw [hc, Bool.true_and] at h
      rw [report_of_succeeds hc]
      refine iff_of_true (isLegible_runReport h) ?_
      rintro ⟨outcome, rfl, hs, _⟩
      exact Bool.false_ne_true (hs.symm.trans hc)
  · rintro outcome hc rfl ht
    rw [report_of_succeeds hc, runReport, runFailure, ht]
    exact List.mem_singleton_self _
  · rintro outcome rfl hs
    exact report_of_failedCheck hs

/-- A check that ends well and a run that is stopped, and a check that is stopped without a word. -/
theorem isLegible_of_failure_stopped :
    (report {} (.ok ⟨.exited 0, "", ""⟩) (.ok ⟨.timedOut, "", ""⟩)).IsLegible ∧
      Diagnostic.general "execution timed out after 5s" ∈
        (report {} (.ok ⟨.exited 0, "", ""⟩) (.ok ⟨.timedOut, "", ""⟩)).diagnostics ∧
      ¬ (report {} (.ok ⟨.timedOut, "", ""⟩) (.ok ⟨.exited 0, "", ""⟩)).IsLegible ∧
      report {} (.ok ⟨.timedOut, "", ""⟩) (.ok ⟨.exited 0, "", ""⟩) =
        .failed [RuntimeReport.parse ""] := by
  obtain ⟨hrun, hstopped, _⟩ := isLegible_of_failure {} (.ok ⟨.exited 0, "", ""⟩)
    (.ok ⟨.timedOut, "", ""⟩) rfl
  obtain ⟨hcheck, _, hsilent⟩ := isLegible_of_failure {} (.ok ⟨.timedOut, "", ""⟩)
    (.ok ⟨.exited 0, "", ""⟩) rfl
  refine ⟨hrun.2 ?_, hstopped ⟨.timedOut, "", ""⟩ rfl rfl rfl, ?_,
    hsilent ⟨.timedOut, "", ""⟩ rfl rfl⟩
  · rintro ⟨outcome, ho, hs, _⟩
    cases ho
    cases hs
  · rw [hcheck, not_not]
    exact ⟨_, rfl, rfl, rfl⟩

/-- The report of a check that fails without a word has no message that can be read. -/
theorem not_isLegible_silentCheck :
    ¬ (report {} (.ok ⟨.exited 1, "", ""⟩) (.ok ⟨.exited 0, "", ""⟩)).IsLegible := by
  rw [report_of_failedCheck rfl, isLegible_failed]
  decide +kernel

end ScriptProgram

end CodeOutline
