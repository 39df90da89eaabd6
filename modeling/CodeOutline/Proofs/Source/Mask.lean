import CodeOutline.Proofs.Text.Laid
import CodeOutline.Source.Basic

namespace CodeOutline

open Cell (width)

namespace Mask

theorem width_blank (c : Char) : width (blank c) = c.utf8Size := by
  rw [blank]
  split
  · next h =>
    subst h
    rfl
  · generalize c.utf8Size = count
    induction count with
    | zero => rfl
    | succ count ih => rw [List.replicate_succ, Cell.width_cons_ascii (by decide), ih,
        Nat.add_comm]

theorem width_runFrom (mode : Mode) (chars : List Char) :
    width (runFrom mode chars) = width chars := by
  induction chars generalizing mode with
  | nil => rfl
  | cons c rest ih =>
    rw [runFrom]
    simp only
    rw [Cell.width_append, ih, Cell.width_cons]
    split
    · rw [Cell.width_cons, Cell.width_nil, Nat.add_zero]
    · rw [width_blank, Cell.ofChar_length]

def IsQuote (c : Char) : Prop :=
  c = '"' ∨ c = '\'' ∨ c = '\x60'

/-- A mode that has looked at the next character is one that it has seen there. -/
def Mode.Ready (mode : Mode) (next : Option Char) : Prop :=
  match mode with
  | .commentOpening => next = some '*'
  | .commentClosing => next = some '/'
  | .continuation => next = some '\n'
  | .literal quote | .escape quote => IsQuote quote
  | .code _ | .lineComment | .blockComment | .directive => True

theorem Mode.Ready.step {mode : Mode} {c : Char} (h : mode.Ready (some c)) (next : Option Char) :
    (mode.step c next).1.Ready next := by
  cases mode with
  | code lineStart =>
    simp only [Mode.step]
    split
    · trivial
    · split
      · next hn => exact hn.2
      · split
        · next hq => exact hq
        · split <;> trivial
  | lineComment =>
    simp only [Mode.step]
    split <;> trivial
  | commentOpening => trivial
  | blockComment =>
    simp only [Mode.step]
    split
    · next hn => exact hn.2
    · trivial
  | commentClosing => trivial
  | literal quote =>
    simp only [Mode.step]
    split
    · trivial
    · split
      · exact h
      · split
        · trivial
        · exact h
  | escape quote => exact h
  | directive =>
    simp only [Mode.step]
    split
    · next hn => exact hn.2
    · split <;> trivial
  | continuation => trivial

theorem ready_code (lineStart : Bool) (next : Option Char) : (Mode.code lineStart).Ready next :=
  trivial

/-- What comes after a line break does not matter to how it is masked. -/
theorem step_break_eq (mode : Mode) (next next' : Option Char) :
    mode.step '\n' next = mode.step '\n' next' := by
  cases mode <;> simp [Mode.step]

variable {mode : Mode} {chars : List Char}

theorem runFrom_cons (mode : Mode) (c : Char) (rest : List Char) :
    runFrom mode (c :: rest) = (if (mode.step c rest.head?).2 then [c] else blank c) ++
      runFrom (mode.step c rest.head?).1 rest :=
  rfl

/-- Behind a line break masking goes on in the mode that the text up to there has left. -/
theorem runFrom_append (h : chars.getLast? = some '\n') (mode : Mode) (rest : List Char) :
    runFrom mode (chars ++ rest) = runFrom mode chars ++ runFrom (modeAfter mode chars) rest := by
  induction chars generalizing mode with
  | nil => cases h
  | cons c chars ih =>
    cases chars with
    | nil =>
      obtain rfl : c = '\n' := Option.some.inj h
      rw [List.cons_append, List.nil_append, runFrom_cons, runFrom_cons, modeAfter, modeAfter,
        step_break_eq mode rest.head? none]
      simp only [List.head?_nil, runFrom, List.append_nil]
      rfl
    | cons d chars =>
      rw [List.getLast?_cons_cons] at h
      rw [List.cons_append, runFrom_cons, runFrom_cons, modeAfter, ih h, ← List.append_assoc]
      rfl

theorem lineStart_modeAfter (h : chars.getLast? = some '\n') (hr : mode.Ready chars.head?)
    {lineStart : Bool} (hm : modeAfter mode chars = .code lineStart) : lineStart = true := by
  induction chars generalizing mode with
  | nil => cases h
  | cons c chars ih =>
    rw [modeAfter] at hm
    cases chars with
    | nil =>
      obtain rfl : c = '\n' := Option.some.inj h
      rw [modeAfter] at hm
      cases mode with
      | code lineStart' => simpa [Mode.step, eq_comm] using hm
      | lineComment => simpa [Mode.step, eq_comm] using hm
      | commentOpening => exact absurd (Option.some.inj hr) (by decide)
      | blockComment => simp [Mode.step] at hm
      | commentClosing => exact absurd (Option.some.inj hr) (by decide)
      | literal quote =>
        rcases hr with rfl | rfl | rfl <;> simp_all [Mode.step]
      | escape quote => simp [Mode.step] at hm
      | directive => simpa [Mode.step, eq_comm] using hm
      | continuation => simp [Mode.step] at hm
    | cons d chars =>
      rw [List.getLast?_cons_cons] at h
      exact ih h (hr.step _) hm

end Mask

theorem Source.stop_view (text : String) : (ofString text).view.stop = text.utf8ByteSize := by
  change 0 + width (Mask.chars text.toList) = _
  rw [Nat.zero_add, Mask.chars, Mask.width_runFrom, Cell.width_toList]

theorem Source.isFaithful_view (text : String) :
    ∀ cell ∈ (ofString text).view.cells, cell.IsFaithful :=
  Cell.isFaithful_of_mem_layout _

end CodeOutline
