import CodeOutline.Text.Scan
import Mathlib.Data.List.Basic

namespace CodeOutline.Text

section

variable {test : Char → Bool} {text word piece : List Char}

theorem pieces_word (rest : List Char) (h : ∀ c ∈ word, test c = false) {d : Char} (hd : test d) :
    pieces test (word ++ d :: rest) = word :: pieces test rest := by
  induction word with
  | nil => simp only [List.nil_append, pieces, hd, if_true]
  | cons c word ih =>
    have hc := h c List.mem_cons_self
    simp only [List.cons_append, pieces, hc, Bool.false_eq_true, if_false,
      ih fun c hm => h c (List.mem_cons_of_mem _ hm)]

theorem pieces_of_forall (h : ∀ c ∈ text, test c = false) : pieces test text = [text] := by
  induction text with
  | nil => rfl
  | cons c text ih =>
    rw [List.forall_mem_cons] at h
    rw [pieces, h.1, ih h.2]
    rfl

theorem length_pieces (test : Char → Bool) (text : List Char) :
    (pieces test text).length = text.countP test + 1 := by
  induction text with
  | nil => rfl
  | cons c text ih =>
    rw [pieces, List.countP_cons]
    split
    · rw [List.length_cons, ih]
    · split
      · next hp =>
        rw [hp] at ih
        cases ih
      · next hp => rw [← ih, hp]; rfl

theorem pieces_ne_nil (test : Char → Bool) (text : List Char) : pieces test text ≠ [] :=
  List.ne_nil_of_length_pos (length_pieces test text ▸ Nat.succ_pos _)

theorem pieces_append {separator : Char} (hs : test separator) (left right : List Char) :
    pieces test (left ++ separator :: right) = pieces test left ++ pieces test right := by
  induction left with
  | nil => simp only [List.nil_append, pieces, hs, if_true, List.singleton_append]
  | cons c left ih =>
    rw [List.cons_append, pieces, pieces, ih]
    split
    · rfl
    · cases hp : pieces test left with
      | nil => exact absurd hp (pieces_ne_nil test left)
      | cons piece others => rfl

end

/-- The lines of a text. Behind the last line break stands a line only if it is not empty. -/
def lines (text : String) : List String :=
  let parts := (pieces isLineBreak text.toList).map String.ofList
  if parts.getLast? = some "" then parts.dropLast else parts

/-- A text without line breaks. -/
def IsLine (text : String) : Prop :=
  '\n' ∉ text.toList

instance (text : String) : Decidable (IsLine text) :=
  inferInstanceAs (Decidable (¬ _))

variable {written : List String} {text last : String}

@[simp]
theorem isLine_append {first second : String} :
    IsLine (first ++ second) ↔ IsLine first ∧ IsLine second := by
  simp [IsLine]

theorem isLine_of_forall (accepts : Char → Bool) (hb : accepts '\n' = false)
    (h : ∀ c ∈ text.toList, accepts c) : IsLine text :=
  fun hm => Bool.false_ne_true (hb.symm.trans (h '\n' hm))

theorem isLine_toString (number : Nat) : IsLine (toString number) := by
  refine isLine_of_forall Char.isDigit rfl fun c hc => ?_
  rw [Nat.toString_eq_repr, Nat.toList_repr] at hc
  exact Nat.isDigit_of_mem_toDigits (by decide) (by decide) hc

theorem isLine_spaces (count : Nat) : IsLine (spaces count) := by
  refine isLine_of_forall (· = ' ') rfl fun c hc => ?_
  rw [spaces, String.toList_ofList] at hc
  exact decide_eq_true (List.eq_of_mem_replicate hc)

theorem IsLine.forall (h : IsLine text) : ∀ c ∈ text.toList, isLineBreak c = false :=
  fun _ hc => decide_eq_false fun he => h (he ▸ hc)

/-- How many line breaks a text has. -/
def breaks (text : String) : Nat :=
  text.toList.countP isLineBreak

@[simp]
theorem breaks_append (first second : String) :
    breaks (first ++ second) = breaks first + breaks second := by
  rw [breaks, String.toList_append, List.countP_append]
  rfl

theorem isLine_iff : IsLine text ↔ breaks text = 0 := by
  rw [breaks, List.countP_eq_zero]
  constructor
  · intro h c hc
    exact Bool.eq_false_iff.1 (h.forall c hc)
  · intro h hm
    exact h '\n' hm rfl

theorem lines_concat (text : String) :
    lines (text ++ "\n") = (pieces isLineBreak text.toList).map String.ofList := by
  have hpieces : pieces isLineBreak (text ++ "\n").toList =
      pieces isLineBreak text.toList ++ [[]] := by
    rw [String.toList_append]
    exact pieces_append rfl _ []
  have hlines : (pieces isLineBreak text.toList ++ [[]]).map String.ofList =
      (pieces isLineBreak text.toList).map String.ofList ++ [""] := List.map_append
  simp only [lines, hpieces, hlines, List.getLast?_concat, if_true, List.dropLast_concat]

theorem length_lines_concat (text : String) : (lines (text ++ "\n")).length = breaks text + 1 := by
  rw [lines_concat, List.length_map, length_pieces]
  rfl

theorem lines_append (text rest : String) :
    lines (text ++ "\n" ++ rest) = lines (text ++ "\n") ++ lines rest := by
  have hpieces : pieces isLineBreak (text ++ "\n" ++ rest).toList =
      pieces isLineBreak text.toList ++ pieces isLineBreak rest.toList := by
    rw [String.toList_append, String.toList_append, List.append_assoc]
    exact pieces_append rfl _ _
  have hne : (pieces isLineBreak rest.toList).map String.ofList ≠ [] := by
    rw [ne_eq, List.map_eq_nil_iff]
    exact pieces_ne_nil _ _
  rw [lines_concat]
  simp only [lines, hpieces, List.map_append, List.getLast?_append_of_ne_nil _ hne,
    List.dropLast_append_of_ne_nil hne]
  split <;> rfl

theorem IsLine.lines_eq (h : IsLine text) (hne : text ≠ "") : lines text = [text] := by
  simp [lines, pieces_of_forall h.forall, hne]

theorem IsLine.lines_concat (h : IsLine text) : lines (text ++ "\n") = [text] := by
  rw [Text.lines_concat, pieces_of_forall h.forall, List.map_singleton, String.ofList_toList]

theorem lines_join (texts : List String) : lines (String.join (texts.map (· ++ "\n"))) =
    texts.flatMap fun text => lines (text ++ "\n") := by
  induction texts with
  | nil => rfl
  | cons text texts ih =>
    rw [List.map_cons, String.join_cons, lines_append, ih, List.flatMap_cons]

theorem lines_join_lines (h : ∀ line ∈ written, IsLine line) :
    lines (String.join (written.map (· ++ "\n"))) = written := by
  induction written with
  | nil => rfl
  | cons line written ih =>
    rw [List.forall_mem_cons] at h
    rw [List.map_cons, String.join_cons, lines_append, h.1.lines_concat, ih h.2,
      List.singleton_append]

theorem lines_intercalate (h : ∀ line ∈ written, IsLine line) (hl : IsLine last)
    (hne : last ≠ "") : lines ("\n".intercalate (written ++ [last])) = written ++ [last] := by
  induction written with
  | nil => exact hl.lines_eq hne
  | cons line written ih =>
    rw [List.forall_mem_cons] at h
    rw [List.cons_append, String.intercalate_cons_of_ne_nil (List.concat_ne_nil _ _), lines_append,
      h.1.lines_concat, ih h.2, List.singleton_append]

end CodeOutline.Text
