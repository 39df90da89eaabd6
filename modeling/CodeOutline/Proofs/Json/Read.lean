import CodeOutline.Json.Reader
import CodeOutline.Proofs.Json.Compact
import Mathlib.Tactic.IntervalCases

namespace CodeOutline

namespace Text.Reader

variable {α β : Type} {reader : Reader α} {next : α → Reader β} {text rest : List Char} {value : α}

theorem bind_of_some (h : reader text = some (value, rest)) :
    (reader >>= next) text = next value rest := by
  change ((reader text).bind fun found => next found.1 found.2) = next value rest
  rw [h]
  rfl

end Text.Reader

namespace Json.Read

open Text Text.Reader

/-- What may follow a value: a comma, a closing bracket or nothing. -/
def Ends (rest : List Char) : Prop :=
  ∀ c ∈ rest.head?, c = ',' ∨ c = ']' ∨ c = '\x7d'

/-- A text that does not begin with white space. -/
def Solid (text : List Char) : Prop :=
  ∀ c ∈ text.head?, isGap c = false

theorem Ends.solid {rest : List Char} (h : Ends rest) : Solid rest := by
  intro c hc
  rcases h c hc with rfl | rfl | rfl <;> rfl

theorem gaps_solid {text : List Char} (h : Solid text) : gaps text = some ((), text) := by
  have hrun : run isGap text = some ([], text) := by
    cases text with
    | nil => rfl
    | cons c rest =>
      have hgap : ¬ isGap c := by
        rw [h c rfl]
        exact Bool.false_ne_true
      rw [run, List.takeWhile_cons_of_neg hgap, List.dropWhile_cons_of_neg hgap]
  exact bind_of_some hrun

section

variable {α : Type} {item : Reader α} {print : α → List Char} {entries : List α} {closing : Char}
  {rest : List Char}

/-- An entry of a list with the white space behind it. -/
def spaced (item : Reader α) : Reader α := do
  let item ← item
  gaps
  return item

/-- A reader that reads back the entries of a list. -/
structure ReadsBack (item : Reader α) (print : α → List Char) (entries : List α) : Prop where
  solid : ∀ entry ∈ entries, ∀ rest, Solid (print entry ++ rest)
  read : ∀ entry ∈ entries, ∀ rest, Ends rest → item (print entry ++ rest) = some (entry, rest)

theorem ReadsBack.spaced (h : ReadsBack item print entries) {entry : α} (hm : entry ∈ entries)
    (hr : Ends rest) : spaced item (print entry ++ rest) = some (entry, rest) := by
  refine (bind_of_some (h.read entry hm rest hr)).trans ?_
  exact bind_of_some (gaps_solid hr.solid)

theorem ReadsBack.tail {entry : α} {others : List α} (h : ReadsBack item print (entry :: others)) :
    ReadsBack item print others :=
  ⟨fun other hm => h.solid other (List.mem_cons_of_mem _ hm),
    fun other hm => h.read other (List.mem_cons_of_mem _ hm)⟩

end

end Json.Read

end CodeOutline
