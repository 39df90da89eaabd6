import CodeOutline.Proofs.Text.Line
import CodeOutline.Proofs.Text.Scan
import CodeOutline.Render.Format

namespace CodeOutline.Dot

open Text (IsLine isLine_append strip? run?)

/-- A character of a label as it is written between quotes. -/
def escape (c : Char) : List Char :=
  if c = '\\' then ['\\', '\\']
  else if c = '"' then ['\\', '"']
  else if c = '\n' then ['\\', 'n']
  else [c]

theorem replace_of_ne {c char : Char} (h : c ≠ char) (text : List Char) :
    replace char text [c] = [c] := by
  rw [replace, List.flatMap_singleton, if_neg h]

/-- No replacement touches what another one wrote. -/
theorem replace_written (c : Char) : replace '\n' ['\\', 'n'] (replace '"' ['\\', '"']
    (if c = '\\' then ['\\', '\\'] else [c])) = escape c := by
  rw [escape]
  split_ifs with hbackslash hquote hbreak
  · rfl
  · rw [hquote]
    rfl
  · rw [hbreak]
    rfl
  · rw [replace_of_ne hquote, replace_of_ne hbreak]

/-- The three replacements go through a label character by character. -/
theorem escapeLabel_eq (label : String) :
    escapeLabel label = String.ofList (label.toList.flatMap escape) := by
  rw [escapeLabel, replace, replace, replace, List.flatMap_assoc, List.flatMap_assoc]
  exact congrArg String.ofList <| List.flatMap_congr fun c _ =>
    List.flatMap_assoc.symm.trans (replace_written c)

/-- The label before the next quote that is not escaped, and what follows the quote. `escaped` tells
that a backslash stands before the text. -/
def readLabel? (escaped : Bool) : List Char → Option (List Char × List Char)
  | [] => none
  | c :: text =>
    if escaped then
      (readLabel? false text).map fun (label, rest) =>
        ((if c = 'n' then '\n' else c) :: label, rest)
    else if c = '"' then some ([], text)
    else if c = '\\' then readLabel? true text
    else (readLabel? false text).map fun (label, rest) => (c :: label, rest)

theorem readLabel?_escaped (c : Char) (text : List Char) : readLabel? false ('\\' :: c :: text) =
    (readLabel? false text).map fun (label, rest) =>
      ((if c = 'n' then '\n' else c) :: label, rest) :=
  rfl

theorem readLabel?_cons {c : Char} (hq : c ≠ '"') (hb : c ≠ '\\') (text : List Char) :
    readLabel? false (c :: text) =
      (readLabel? false text).map fun (label, rest) => (c :: label, rest) := by
  rw [readLabel?, if_neg Bool.false_ne_true, if_neg hq, if_neg hb]

theorem readLabel?_escape (label rest : List Char) :
    readLabel? false (label.flatMap escape ++ '"' :: rest) = some (label, rest) := by
  induction label with
  | nil => rfl
  | cons c label ih =>
    rw [List.flatMap_cons, List.append_assoc, escape]
    split_ifs with hbackslash hquote hbreak
    · rw [hbackslash, List.cons_append, List.singleton_append, readLabel?_escaped, ih]
      rfl
    · rw [hquote, List.cons_append, List.singleton_append, readLabel?_escaped, ih]
      rfl
    · rw [hbreak, List.cons_append, List.singleton_append, readLabel?_escaped, ih]
      rfl
    · rw [List.singleton_append, readLabel?_cons hquote hbackslash, ih]
      rfl

example : readLabel? false "a\\n\\\"b\\\\\"];".toList = some ("a\n\"b\\".toList, "];".toList) := by
  decide

theorem isLine_escapeLabel (label : String) : IsLine (escapeLabel label) := by
  rw [IsLine, escapeLabel_eq, String.toList_ofList, List.mem_flatMap]
  rintro ⟨c, _, hc⟩
  rw [escape] at hc
  split_ifs at hc with hbackslash hquote hbreak
  · exact absurd hc (by decide)
  · exact absurd hc (by decide)
  · exact absurd hc (by decide)
  · exact hbreak (List.mem_singleton.1 hc).symm

/-- Whether nothing is escaped in a label. -/
def IsBare (label : String) : Prop :=
  ∀ c ∈ label.toList, escape c = [c]

instance (label : String) : Decidable (IsBare label) :=
  List.decidableBAll _ label.toList

theorem IsBare.flatMap {label : String} (h : IsBare label) :
    label.toList.flatMap escape = label.toList := by
  rw [List.flatMap_def, List.map_congr_left h, ← List.flatMap_def, List.flatMap_singleton']

theorem IsBare.isLine {label : String} (h : IsBare label) : IsLine label :=
  fun hm => absurd (h '\n' hm) (by decide)

/-- Whether nothing but the label of a look needs escapes. -/
structure Look.IsPlain (look : Look) : Prop where
  shape : look.shape ≠ "" ∧ look.shape.toList.all Char.isAlpha
  style : IsBare look.style
  color : IsBare look.color

theorem isLine_nodeStatement (number : Nat) {look : Look} (h : look.IsPlain) :
    IsLine (nodeStatement number look) := by
  have hshape : IsLine look.shape :=
    Text.isLine_of_forall Char.isAlpha (by decide) (List.all_eq_true.1 h.shape.2)
  unfold nodeStatement
  simp only [isLine_append, isLine_escapeLabel, Text.isLine_toString, hshape, h.style.isLine,
    h.color.isLine]
  decide

theorem isLine_edgeStatement (parent number : Nat) {label : String} (h : IsBare label) :
    IsLine (edgeStatement parent number label) := by
  unfold edgeStatement
  simp only [isLine_append, Text.isLine_toString, h.isLine]
  decide

theorem strip?_append_self (word text : List Char) : strip? word (word ++ text) = some text :=
  Text.strip?_eq_some.2 rfl

/-- The number of a node between its quotes. -/
def readNumber? (text : List Char) : Option (Nat × List Char) :=
  (strip? "\"n".toList text).bind fun text =>
    (run? Char.isDigit text).bind fun (digits, text) =>
      (strip? ['"'] text).map fun text => (Nat.ofDigitChars 10 digits 0, text)

theorem readNumber?_quoted (number : Nat) (rest : List Char) :
    readNumber? ("\"n".toList ++ (Nat.toDigits 10 number ++ '"' :: rest)) =
      some (number, rest) := by
  have hdigits : run? Char.isDigit (Nat.toDigits 10 number ++ '"' :: rest) =
      some (Nat.toDigits 10 number, '"' :: rest) := by
    refine Text.run?_eq_some.2 ⟨rfl, List.ne_nil_of_length_pos Nat.length_toDigits_pos, ?_, ?_⟩
    · exact fun c hc => Nat.isDigit_of_mem_toDigits (by decide) (by decide) hc
    · rintro c ⟨⟩
      decide
  rw [readNumber?, strip?_append_self, Option.bind_some, hdigits, Option.bind_some]
  simp [strip?, Nat.ofDigitChars_toDigits]

/-- An arrow between two nodes, which are given by their numbers. -/
structure Edge where
  parent : Nat
  child : Nat
  label : String
  deriving DecidableEq, Repr

/-- What a line of a drawing says. -/
inductive Statement where
  | node (number : Nat) (look : Look)
  | edge (edge : Edge)
  deriving DecidableEq, Repr

namespace Statement

/-- The number and the label of a node. -/
def node? : Statement → Option (Nat × String)
  | .node number look => some (number, look.label)
  | .edge _ => none

def edge? : Statement → Option Edge
  | .node _ _ => none
  | .edge arrow => some arrow

/-- How a node with the given label is drawn, up to the end of the line. -/
def readLook? (label : String) (text : List Char) : Option Look :=
  (strip? ", shape=".toList text).bind fun text =>
    (run? Char.isAlpha text).bind fun (shape, text) =>
      (strip? ", style=\"".toList text).bind fun text =>
        (readLabel? false text).bind fun (style, text) =>
          (strip? ", fillcolor=\"".toList text).bind fun text =>
            (readLabel? false text).bind fun (color, text) =>
              if text = "];".toList then
                some ⟨label, String.ofList shape, String.ofList style, String.ofList color⟩
              else none

def readNode? (number : Nat) (text : List Char) : Option Statement :=
  (strip? " [label=\"".toList text).bind fun text =>
    (readLabel? false text).bind fun (label, text) =>
      (readLook? (String.ofList label) text).map fun look => .node number look

def readEdge? (parent : Nat) (text : List Char) : Option Statement :=
  (strip? " -> ".toList text).bind fun text =>
    (readNumber? text).bind fun (number, text) =>
      (strip? " [label=\"".toList text).bind fun text =>
        (readLabel? false text).bind fun (label, text) =>
          if text = "];".toList then some (.edge ⟨parent, number, String.ofList label⟩) else none

/-- The statement on a line. -/
def read? (line : String) : Option Statement :=
  (strip? "    ".toList line.toList).bind fun text =>
    (readNumber? text).bind fun (number, text) => (readNode? number text).or (readEdge? number text)

/-- What stands in the line of a node behind the label. -/
def lookText (look : Look) : List Char :=
  ", shape=".toList ++ (look.shape.toList ++ (", style=\"".toList ++
    (look.style.toList.flatMap escape ++ '"' :: (", fillcolor=\"".toList ++
      (look.color.toList.flatMap escape ++ '"' :: "];".toList)))))

theorem toList_nodeStatement (number : Nat) {look : Look} (h : look.IsPlain) :
    (nodeStatement number look).toList = "    ".toList ++ ("\"n".toList ++
      (Nat.toDigits 10 number ++ '"' :: (" [label=\"".toList ++
        (look.label.toList.flatMap escape ++ '"' :: lookText look)))) := by
  unfold nodeStatement lookText
  simp only [String.toList_append, toString, Nat.toList_repr, escapeLabel_eq, String.toList_ofList,
    h.style.flatMap, h.color.flatMap, List.append_assoc]
  rfl

theorem toList_edgeStatement (parent number : Nat) {label : String} (h : IsBare label) :
    (edgeStatement parent number label).toList = "    ".toList ++ ("\"n".toList ++
      (Nat.toDigits 10 parent ++ '"' :: (" -> ".toList ++ ("\"n".toList ++
        (Nat.toDigits 10 number ++ '"' :: (" [label=\"".toList ++
          (label.toList.flatMap escape ++ '"' :: "];".toList))))))) := by
  unfold edgeStatement
  simp only [String.toList_append, toString, Nat.toList_repr, h.flatMap, List.append_assoc]
  rfl

theorem run?_shape {look : Look} (h : look.IsPlain) (rest : List Char) :
    run? Char.isAlpha (look.shape.toList ++ (", style=\"".toList ++ rest)) =
      some (look.shape.toList, ", style=\"".toList ++ rest) := by
  refine Text.run?_eq_some.2 ⟨rfl, ?_, List.all_eq_true.1 h.shape.2, ?_⟩
  · exact fun hnil => h.shape.1 (String.toList_eq_nil_iff.1 hnil)
  · rintro c ⟨⟩
    decide

theorem readLook?_lookText {look : Look} (h : look.IsPlain) :
    readLook? look.label (lookText look) = some look := by
  unfold readLook? lookText
  simp only [strip?_append_self, Option.bind_some, run?_shape h, readLabel?_escape, if_true,
    String.ofList_toList]

theorem read?_nodeStatement (number : Nat) {look : Look} (h : look.IsPlain) :
    read? (nodeStatement number look) = some (.node number look) := by
  simp only [read?, toList_nodeStatement number h, strip?_append_self, Option.bind_some,
    readNumber?_quoted, readNode?, readLabel?_escape, String.ofList_toList, readLook?_lookText h,
    Option.map_some, Option.some_or]

theorem read?_edgeStatement (parent number : Nat) {label : String} (h : IsBare label) :
    read? (edgeStatement parent number label) = some (.edge ⟨parent, number, label⟩) := by
  have hnode (rest : List Char) : readNode? parent (" -> ".toList ++ rest) = none := rfl
  simp only [read?, toList_edgeStatement parent number h, strip?_append_self, Option.bind_some,
    readNumber?_quoted, hnode, Option.none_or, readEdge?, readLabel?_escape, if_true,
    String.ofList_toList]

end Statement

end CodeOutline.Dot
