import CodeOutline.Outline.Program
import CodeOutline.Proofs.Outline.Aligned
import CodeOutline.Proofs.Outline.Concluded
import CodeOutline.Proofs.Outline.Content
import CodeOutline.Proofs.Source.Append

namespace CodeOutline

open Delimiter (Concludes due)

variable {left right : String}

/-- The node in a text with more before it. -/
def NodeLabel.shift (bytes lines : Nat) (label : NodeLabel) : NodeLabel :=
  { label with offset := label.offset + bytes, location := label.location.shift lines }

/-- A place further on behind a position. -/
def stretch (position offset : Nat) : Nat :=
  if offset ≤ position then offset else offset + 1

theorem strictMono_stretch (position : Nat) : StrictMono (stretch position) := by
  intro offset offset' hlt
  simp only [stretch]
  split <;> split <;> omega

theorem le_of_stretch_eq {position offset : Nat} (h : offset = stretch position offset) :
    offset ≤ position := by
  rw [stretch] at h
  split at h
  · assumption
  · omega

namespace Source

theorem describe_append_of_le {item : Item}
    (h : Item.Aligned False (stretch left.utf8ByteSize) item item) :
    (ofString (left ++ right)).describe item = (ofString left).describe item := by
  have hwording : (ofString (left ++ right)).wording item.wording =
      (ofString left).wording item.wording := by
    have hw := h.wording
    cases hi : item.wording with
    | absent => rfl
    | words => rfl
    | quoted slice =>
      rw [hi] at hw
      cases hw with
      | quoted hs =>
        have hstop := le_of_stretch_eq hs.trim.stop_eq
        simp only [wording, fragment?, quote_append_of_le hstop]
  have hlocation : (ofString (left ++ right)).locate item.offset =
      (ofString left).locate item.offset :=
    locate_append_of_le (le_of_stretch_eq h.offset_eq)
  rw [describe, describe, hwording, hlocation]

theorem describe_append (hl : left.toList.getLast? = some '\n') {item item' : Item}
    (h : Item.Aligned False (left.utf8ByteSize + ·) item item') :
    (ofString (left ++ right)).describe item' =
      ((ofString right).describe item).shift left.utf8ByteSize (left.toList.count '\n') := by
  have hwording : (ofString (left ++ right)).wording item'.wording =
      (ofString right).wording item.wording := by
    have hw := h.wording
    generalize item.wording = wording at hw
    generalize item'.wording = wording' at hw
    cases hw with
    | absent => rfl
    | words ht => exact congrArg some (ht not_false)
    | quoted hs =>
      have htrim := hs.trim
      simp only [Source.wording, fragment?, htrim.isEmpty_eq,
        quote_append htrim.start_eq (htrim.cells.eq (.inl not_false)).symm]
  have hlocation : (ofString (left ++ right)).locate item'.offset =
      ((ofString right).locate item.offset).shift (left.toList.count '\n') := by
    rw [h.offset_eq]
    exact locate_append hl item.offset
  rw [describe, describe, hwording, hlocation, h.kind_eq, h.relation_eq, h.name_eq, h.offset_eq,
    NodeLabel.shift, Nat.add_comm]

end Source

theorem exists_of_getLast?_filter {α : Type} {test : α → Bool} {list : List α} {last : α}
    (h : (list.filter test).getLast? = some last) :
    ∃ front back, list = front ++ last :: back ∧ ∀ other ∈ back, test other = false := by
  obtain ⟨kept, hk⟩ := List.getLast?_eq_some_iff.1 h
  obtain ⟨front, back, rfl, -, hb⟩ := List.filter_eq_append_iff.1 hk
  obtain ⟨passed, back', rfl, -, -, hb'⟩ := List.filter_eq_cons_iff.1 hb
  exact ⟨front ++ passed, back', by simp, by simpa using hb'⟩

theorem isLineBreak_masked (h : left.toList.getLast? = some '\n') :
    ((Source.ofString left).masked.map Cell.isLineBreak).getLast? = some true := by
  obtain ⟨front, hf⟩ := List.getLast?_eq_some_iff.1 h
  have hmasked : (Source.ofString left).masked.map Cell.isLineBreak =
      (Cell.layout left.toList).map Cell.isLineBreak := Mask.isLineBreak_runFrom ..
  rw [hmasked, hf, Cell.layout_append, List.map_append]
  exact List.getLast?_concat ..

theorem concludes_masked (hl : left.toList.getLast? = some '\n')
    (hn : Delimiter.IsNested (Source.ofString left).masked)
    (hs : ((Source.ofString left).masked.filter fun cell => !cell.isBlank).getLast?.map Cell.byte =
      some 0x3B) : Concludes [] (Source.ofString left).masked := by
  have hbreak := isLineBreak_masked hl
  obtain ⟨semicolon, hlast, hsemicolon⟩ := Option.map_eq_some_iff.1 hs
  obtain ⟨front, blanks, hm, hb⟩ := exists_of_getLast?_filter hlast
  simp only [Bool.not_eq_false'] at hb
  rw [hm] at hbreak hn ⊢
  have hinert : ∀ cell ∈ semicolon :: blanks, Delimiter.isInert cell.byte := by
    intro cell hc
    rcases List.mem_cons.1 hc with rfl | hc
    · rw [hsemicolon]
      rfl
    · exact Delimiter.isInert_of_isBlank (hb cell hc)
  have hdue : due [] front = some [] := by
    rw [Delimiter.IsNested, Delimiter.due_append, Option.bind_eq_some_iff] at hn
    obtain ⟨stack, hfront, hstack⟩ := hn
    rw [Delimiter.due_inert hinert] at hstack
    rw [hfront, hstack]
  refine Delimiter.concludes_of_due hdue hsemicolon hb ?_
  obtain ⟨cells, last, hc⟩ : ∃ cells last, semicolon :: blanks = cells ++ [last] :=
    List.eq_nil_or_concat' (semicolon :: blanks) |>.resolve_left (List.cons_ne_nil _ _)
  rw [hc, ← List.append_assoc, List.map_append, List.map_singleton, List.getLast?_concat,
    Option.some.injEq, Cell.isLineBreak, decide_eq_true_eq] at hbreak
  refine ⟨last, ?_, hbreak⟩
  have hmem : last ∈ semicolon :: blanks := hc ▸ List.mem_concat_self
  rcases List.mem_cons.1 hmem with rfl | hmem
  · rw [hsemicolon] at hbreak
    cases hbreak
  · exact hmem

/-- A text that ends outside comments and brackets with a semicolon and a line has its items in
front of those of the text behind it, whose places lie that much further on. -/
theorem children_append (left right : String) (hl : left.toList.getLast? = some '\n')
    (hm : ∃ lineStart, Mask.modeAfter (.code true) left.toList = .code lineStart)
    (hn : Delimiter.IsNested (Source.ofString left).masked)
    (hs : ((Source.ofString left).masked.filter fun cell => !cell.isBlank).getLast?.map Cell.byte =
      some 0x3B) :
    (structuralTree (left ++ right)).children = (structuralTree left).children ++
      (structuralTree right).children.map
        (Tree.map (NodeLabel.shift left.utf8ByteSize (left.toList.count '\n'))) := by
  obtain ⟨lineStart, hm⟩ := hm
  have hview : (Source.ofString (left ++ right)).view =
      (Source.ofString left).view.append (Source.ofString right).view.cells :=
    congrArg (Slice.mk 0) (Source.masked_append hl hm)
  have houtline := Outline.children_ofText_append (concludes_masked hl hn hs)
    (Source.isFaithful_view left) (Source.isFaithful_view right)
  rw [Source.stop_view] at houtline
  have hearlier : Slice.Aligned False (stretch left.utf8ByteSize) (Source.ofString left).view
      (Source.ofString left).view := by
    refine ⟨rfl, .same fun count hcount => ?_⟩
    have hlength := Source.length_masked left
    simp only [Source.view] at hcount ⊢
    simp only [stretch]
    rw [if_pos (by omega), if_pos (by omega)]
  have hlater : Slice.Aligned False (left.utf8ByteSize + ·) (Source.ofString right).view
      ⟨left.utf8ByteSize, (Source.ofString right).view.cells⟩ :=
    ⟨rfl, .same fun count _ => (Nat.add_assoc ..).symm⟩
  rw [structuralTree, structuralTree, structuralTree, Source.tree, Source.tree, Source.tree,
    Source.children_describe, Source.children_describe, Source.children_describe, hview, houtline,
    List.map_append]
  congr 1
  · have hself := List.forall₂_same.1
      (Outline.children_ofText_aligned (strictMono_stretch _) hearlier)
    refine List.map_congr_left fun item hi => ?_
    exact (hself item hi).self.map_eq fun _ _ h =>
      h.1 ▸ Source.describe_append_of_le h.2
  · have hbehind : StrictMono (left.utf8ByteSize + ·) := fun _ _ hlt => Nat.add_lt_add_left hlt _
    have hitems := Outline.children_ofText_aligned hbehind hlater
    rw [List.map_map]
    refine (map_eq_of_forall₂ hitems fun item item' hi => ?_).symm
    rw [Function.comp_apply, Tree.map_map]
    exact hi.map_eq fun _ _ h => (Source.describe_append hl h).symm

/-- A function and a declaration, with a brace in a comment. -/
def concluding : String :=
  "int f(int a) \x7b return g(a, (1)); \x7d // \x7b\nint x = f(2);\n"

/-- Brackets and comments that are never closed. -/
def unfinished : String :=
  "void h(int b) \x7b if (b) k(\"); \n int y; /* \x7d"

theorem children_append_unfinished :
    (structuralTree (concluding ++ unfinished)).children = (structuralTree concluding).children ++
      (structuralTree unfinished).children.map
        (Tree.map (NodeLabel.shift concluding.utf8ByteSize (concluding.toList.count '\n'))) :=
  children_append concluding unfinished (by decide +kernel) ⟨true, by decide +kernel⟩
    (by decide +kernel) (by decide +kernel)

end CodeOutline
