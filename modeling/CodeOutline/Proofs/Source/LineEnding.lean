import CodeOutline.Proofs.Source.Mask
import CodeOutline.Proofs.Text.Aligned
import CodeOutline.Proofs.Text.Location
import Mathlib.Order.Monotone.Basic

namespace CodeOutline

namespace Text

def crlf (chars : List Char) : List Char :=
  chars.flatMap fun c => if c = '\n' then ['\r', '\n'] else [c]

/-- The text with the other convention for line ends. -/
def withCarriageReturns (text : String) : String :=
  String.ofList (crlf text.toList)

theorem crlf_cons (c : Char) (rest : List Char) :
    crlf (c :: rest) = (if c = '\n' then ['\r', '\n'] else [c]) ++ crlf rest :=
  List.flatMap_cons

theorem crlf_break (rest : List Char) : crlf ('\n' :: rest) = '\r' :: '\n' :: crlf rest :=
  crlf_cons ..

theorem crlf_other {c : Char} (hc : c ≠ '\n') (rest : List Char) :
    crlf (c :: rest) = c :: crlf rest := by
  rw [crlf_cons, if_neg hc]
  rfl

end Text

open Cell (layout lineBreaks width)
open Text (crlf)

namespace Mask

/-- Whether a line break that is read in the mode does not end the line. -/
def Mode.joins : Mode → Bool
  | .continuation => true
  | .escape quote => quote ≠ '\x60'
  | _ => false

/-- Whether a backslash takes some line break into a directive or a literal. -/
def joinsLines (mode : Mode) : List Char → Bool
  | [] => false
  | c :: rest => (c = '\n' && mode.joins) || joinsLines (mode.step c rest.head?).1 rest

variable {mode : Mode} {c : Char} {chars rest : List Char}

/-- The character after a carriage return is not looked at in another way than a line break, unless
a backslash of a directive stands before it. -/
theorem step_return (h : (mode.step c (some '\n')).1 ≠ .continuation) :
    mode.step c (some '\r') = mode.step c (some '\n') := by
  have hslash : (some '\r' = some '/') ↔ (some '\n' = some '/') := by decide
  have hstar : (some '\r' = some '*') ↔ (some '\n' = some '*') := by decide
  cases mode with
  | directive =>
    by_cases hc : c = '\\'
    · exact absurd (by simp [Mode.step, hc]) h
    · simp [Mode.step, hc]
  | _ => simp only [Mode.step, hslash, hstar]

theorem step_crlf (hn : joinsLines mode (c :: rest) = false) :
    mode.step c (crlf rest).head? = mode.step c rest.head? := by
  cases rest with
  | nil => rfl
  | cons d more =>
    by_cases hd : d = '\n'
    · subst hd
      refine step_return fun hm => ?_
      simp [joinsLines, hm, Mode.joins] at hn
    · rw [Text.crlf_other hd]
      rfl

theorem step_break (hr : mode.Ready (some '\n')) (hj : mode.joins = false) (next : Option Char) :
    ((mode.step '\r' (some '\n')).1.step '\n' next).1 = (mode.step '\n' next).1 := by
  cases mode with
  | code lineStart => simp [Mode.step]
  | lineComment => simp [Mode.step]
  | commentOpening => exact absurd (Option.some.inj hr) (by decide)
  | blockComment => simp [Mode.step]
  | commentClosing => exact absurd (Option.some.inj hr) (by decide)
  | literal quote => rcases hr with rfl | rfl | rfl <;> simp [Mode.step]
  | escape quote =>
    obtain rfl : quote = '\x60' := by simpa [Mode.joins] using hj
    simp [Mode.step]
  | directive => simp [Mode.step]
  | continuation => cases hj

theorem kept_break (mode : Mode) (next : Option Char) :
    (if (mode.step '\n' next).2 then ['\n'] else blank '\n') = ['\n'] := by
  split <;> rfl

theorem kept_return (mode : Mode) (next : Option Char) :
    ∃ c, (if (mode.step '\r' next).2 then ['\r'] else blank '\r') = [c] ∧
      layout [c] = [⟨c.val.toUInt8, some c⟩] ∧ Cell.IsPadding ⟨c.val.toUInt8, some c⟩ := by
  split
  · exact ⟨'\r', rfl, rfl, .carriageReturn⟩
  · exact ⟨' ', rfl, rfl, .space⟩

variable {move : Nat → Nat} {position : Nat}

/-- A place further on for each line break before it. -/
def Shifts (move : Nat → Nat) (position : Nat) (cells : List Cell) : Prop :=
  ∀ count ≤ cells.length,
    move (position + count) = move position + count + lineBreaks (cells.take count)

theorem Shifts.append {left right : List Cell} (h : Shifts move position (left ++ right)) :
    Shifts move (position + left.length) right := by
  intro count hc
  have hfirst := h left.length (by rw [List.length_append]; omega)
  have hlast := h (left.length + count) (by rw [List.length_append]; omega)
  rw [List.take_left] at hfirst
  rw [List.take_length_add_append, Cell.lineBreaks_append, ← Nat.add_assoc] at hlast
  omega

theorem Shifts.head {cells rest : List Cell} (h : Shifts move position (cells ++ rest))
    (hn : lineBreaks cells = 0) :
    ∀ count ≤ cells.length, move (position + count) = move position + count := by
  intro count hc
  have hcount := h count (by rw [List.length_append]; omega)
  have hzero : lineBreaks (cells.take count) = 0 :=
    Nat.eq_zero_of_le_zero (hn ▸ List.Sublist.countP_le (List.take_sublist ..))
  rwa [List.take_append_of_le_length hc, hzero, Nat.add_zero] at hcount

theorem Shifts.lineBreak {rest : List Cell} (h : Shifts move position (layout ['\n'] ++ rest)) :
    move (position + 1) = move position + 2 :=
  h 1 (by rw [List.length_append]; exact Nat.le_add_right 1 _)

/-- The masked text with the other line ends is the masked text with blanks put in. -/
theorem aligned_runFrom (hshift : Shifts move position (layout chars))
    (hr : mode.Ready chars.head?) (hn : joinsLines mode chars = false) :
    Cell.Aligned True move position (layout (runFrom mode chars))
      (layout (runFrom mode (crlf chars))) := by
  induction chars generalizing mode position with
  | nil => exact .nil _
  | cons c rest ih =>
    rw [Cell.layout_cons] at hshift
    have ih := ih hshift.append (hr.step rest.head?) (Bool.or_eq_false_iff.1 hn).2
    have hnext := step_crlf hn
    by_cases hc : c = '\n'
    · subst hc
      have hj : mode.joins = false := by
        simpa using (Bool.or_eq_false_iff.1 hn).1
      obtain ⟨c, hkept, hlayout, hpadding⟩ := kept_return mode (some '\n')
      have hstep := step_break hr hj (crlf rest).head?
      rw [hnext] at hstep
      rw [Text.crlf_break, runFrom_cons, runFrom_cons, runFrom_cons, List.head?_cons, hkept,
        kept_break, kept_break, hstep, Cell.layout_append, Cell.layout_append, Cell.layout_append,
        hlayout]
      exact .pad trivial hpadding hshift.lineBreak ih
    · rw [Text.crlf_other hc, runFrom_cons, runFrom_cons, hnext, Cell.layout_append,
        Cell.layout_append]
      have hlength : (layout (if (mode.step c rest.head?).2 then [c] else blank c)).length =
          (Cell.ofChar c).length := by
        rw [← Cell.width, Cell.ofChar_length]
        split
        · rw [Cell.width_cons, Cell.width_nil, Nat.add_zero, Cell.ofChar_length]
        · exact width_blank c
      refine .append_same ?_ ?_
      · rw [hlength]
        exact hshift.head (by rw [Cell.lineBreaks_ofChar, if_neg hc])
      · rw [hlength]
        exact ih

end Mask

/-- Where the place of an offset is once carriage returns have been put in. -/
def Text.crlfOffset (text : String) (offset : Nat) : Nat :=
  offset + lineBreaks ((layout text.toList).take offset)

theorem Text.strictMono_crlfOffset (text : String) : StrictMono (crlfOffset text) := by
  intro left right hlt
  have hle : lineBreaks ((layout text.toList).take left) ≤
      lineBreaks ((layout text.toList).take right) :=
    List.Sublist.countP_le (List.take_sublist_take_left (Nat.le_of_lt hlt))
  exact Nat.add_lt_add_of_lt_of_le hlt hle

theorem Source.aligned_view {text : String}
    (hn : Mask.joinsLines (.code true) text.toList = false) :
    Slice.Aligned True (Text.crlfOffset text) (ofString text).view
      (ofString (Text.withCarriageReturns text)).view := by
  refine ⟨by rfl, ?_⟩
  simp only [view, ofString, Text.withCarriageReturns, String.toList_ofList]
  refine Mask.aligned_runFrom (fun count _ => ?_) trivial hn
  simp [Text.crlfOffset]

namespace Location

theorem after_return (location : Location) :
    (location.after '\r').after '\n' = location.after '\n' :=
  rfl

theorem advance_crlf (location : Location) (bytes : Nat) (chars : List Char) :
    location.advance (bytes + lineBreaks ((layout chars).take bytes)) (crlf chars) =
      location.advance bytes chars := by
  induction chars generalizing location bytes with
  | nil => rfl
  | cons c rest ih =>
    by_cases hc : c = '\n'
    · subst hc
      have hsize : '\n'.utf8Size = 1 := rfl
      have hsize' : '\r'.utf8Size = 1 := rfl
      rw [Text.crlf_break]
      cases bytes with
      | zero => rfl
      | succ bytes =>
        have hbreaks : lineBreaks ((layout ('\n' :: rest)).take (bytes + 1)) =
            lineBreaks ((layout rest).take bytes) + 1 :=
          List.countP_cons_of_pos rfl
        rw [hbreaks, advance, advance, advance, hsize, hsize', if_pos (by omega),
          if_pos (by omega), if_pos (by omega), after_return, Nat.add_sub_cancel, ← ih]
        congr 1
        omega
    · rw [Text.crlf_other hc, advance, advance, Cell.layout_cons, List.take_append,
        Cell.lineBreaks_append, Cell.ofChar_length,
        Cell.lineBreaks_eq_zero hc fun _ hm => List.mem_of_mem_take hm, Nat.zero_add]
      by_cases hle : c.utf8Size ≤ bytes
      · rw [if_pos hle, if_pos (by omega), ← ih]
        congr 1
        omega
      · rw [Nat.sub_eq_zero_of_le (by omega), List.take_zero, Cell.lineBreaks_nil, Nat.add_zero,
          if_neg hle, if_neg hle]

end Location

theorem locate_withCarriageReturns (text : String) (offset : Nat) :
    locate (Text.withCarriageReturns text) (Text.crlfOffset text offset) = locate text offset := by
  rw [locate, locate, Text.withCarriageReturns, String.toList_ofList]
  exact Location.advance_crlf ..

end CodeOutline
