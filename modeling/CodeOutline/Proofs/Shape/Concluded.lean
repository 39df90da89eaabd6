import CodeOutline.Proofs.Delimiter.Concluded
import CodeOutline.Proofs.Shape.Prefix
import CodeOutline.Proofs.Shape.Start

namespace CodeOutline

namespace Declarator

variable {stack : List UInt8} {cells : List Cell}

theorem suffixEnd_blanks (hb : ∀ cell ∈ cells, cell.isBlank) (hl : ∃ cell ∈ cells, cell.byte = 0x0A)
    (start position : Nat) (right : List Cell) :
    suffixEnd false (some start) position (cells ++ right) = start := by
  induction cells generalizing position with
  | nil => obtain ⟨_, hm, _⟩ := hl; cases hm
  | cons cell rest ih =>
    have hx : cell.isAscii ']' = false := by
      rw [Cell.isAscii, decide_eq_false_iff_not]
      intro he
      have hblank := hb cell List.mem_cons_self
      rw [Cell.isBlank, he] at hblank
      exact absurd hblank (by decide)
    rw [List.cons_append, suffixEnd]
    simp only [hx, Bool.false_eq_true, if_false]
    split
    · rfl
    · next hn =>
      refine ih (fun cell hm => hb cell (List.mem_cons_of_mem _ hm)) ?_ _
      obtain ⟨line, hm, he⟩ := hl
      rcases List.mem_cons.1 hm with rfl | hm
      · exact absurd ⟨decide_eq_true he, rfl⟩ hn
      · exact ⟨line, hm, he⟩

/-- Suffixes at the start of a text end in it, whatever follows. -/
def KeepsSuffixes (cells : List Cell) : Prop :=
  ∀ (opened : Option Nat) (position : Nat), (∀ start ∈ opened, start < position) →
    ∀ right : List Cell,
      suffixEnd false opened position (cells ++ right) = suffixEnd false opened position cells ∧
        suffixEnd false opened position cells < position + cells.length

theorem keepsSuffixes_semicolon {semicolon : Cell} {blanks : List Cell} (hs : semicolon.byte = 0x3B)
    (hf : semicolon.IsFaithful) (hb : ∀ cell ∈ blanks, cell.isBlank)
    (hl : ∃ cell ∈ blanks, cell.byte = 0x0A) : KeepsSuffixes (semicolon :: blanks) := by
  intro opened position ho right
  have hbyte : semicolon.isAscii '[' = false ∧ semicolon.isAscii ']' = false ∧
      semicolon.isAscii '\n' = false := by
    simp only [Cell.isAscii, hs]
    decide
  have hspace : semicolon.within CharClass.isSpace = false := by
    rw [Cell.within, hf ';' (by decide) (decide_eq_true hs)]
    rfl
  rw [List.length_cons]
  cases opened with
  | none =>
    simp only [List.cons_append, suffixEnd, hbyte.1, hspace, Bool.false_eq_true, if_false]
    exact ⟨trivial, by omega⟩
  | some start =>
    have hstart := ho start rfl
    have hblanks (right : List Cell) := suffixEnd_blanks hb hl start (position + 1) right
    have hnil := hblanks []
    rw [List.append_nil] at hnil
    simp only [List.cons_append, suffixEnd, hbyte, hblanks, hnil, Bool.false_eq_true, if_false,
      false_and]
    exact ⟨trivial, by omega⟩

theorem KeepsSuffixes.cons (h : KeepsSuffixes cells) (cell : Cell) :
    KeepsSuffixes (cell :: cells) := by
  intro opened position ho right
  have hlater (opened : Option Nat) (ho : ∀ start ∈ opened, start < position + 1) :
      suffixEnd false opened (position + 1) (cells ++ right) =
          suffixEnd false opened (position + 1) cells ∧
        suffixEnd false opened (position + 1) cells < position + (cell :: cells).length := by
    rw [List.length_cons, Nat.add_comm cells.length, ← Nat.add_assoc]
    exact h opened (position + 1) ho right
  have hopened (start : Nat) (hlt : start < position + 1) :
      ∀ start' ∈ some start, start' < position + 1 := fun _ hs => by cases hs; exact hlt
  have hnone : ∀ start ∈ (none : Option Nat), start < position + 1 := fun _ hs => by cases hs
  rw [List.cons_append, suffixEnd.eq_def, suffixEnd.eq_def _ _ _ (cell :: cells)]
  cases opened with
  | none =>
    simp only
    split
    · exact hlater _ (hopened position (Nat.lt_succ_self _))
    · split
      · exact hlater none hnone
      · exact ⟨rfl, by rw [List.length_cons]; omega⟩
  | some start =>
    have hstart := ho start rfl
    simp only
    split
    · exact hlater none hnone
    · split
      · exact ⟨rfl, by rw [List.length_cons]; omega⟩
      · exact hlater _ (hopened start (Nat.lt_succ_of_lt hstart))

theorem keepsSuffixes_concluded (h : IsConcluded cells) (hf : ∀ cell ∈ cells, cell.IsFaithful) :
    KeepsSuffixes cells := by
  obtain ⟨stack, h⟩ := h
  refine h.ends (fun cells => (∀ cell ∈ cells, cell.IsFaithful) → KeepsSuffixes cells) ?_ ?_ hf
  · intro semicolon blanks hs hb hl hf
    exact keepsSuffixes_semicolon hs (hf semicolon List.mem_cons_self) hb hl
  · intro cell rest ih hf
    exact (ih fun cell hm => hf cell (List.mem_cons_of_mem _ hm)).cons cell

end Declarator

namespace Slice.IsConcluded

variable {slice : Slice} (h : slice.IsConcluded) (hf : ∀ cell ∈ slice.cells, cell.IsFaithful)

include h hf

omit h hf in
theorem exists_solid {c : Char} (hs : slice.startsWith c)
    (hc : CharClass.isBlank c.val.toUInt8 = false) : ∃ cell ∈ slice.cells, cell.isBlank = false := by
  obtain ⟨start, cells⟩ := slice
  cases cells with
  | nil => cases hs
  | cons cell cells =>
    have hb : cell.byte = c.val.toUInt8 := of_decide_eq_true hs
    exact ⟨cell, List.mem_cons_self, by rw [Cell.isBlank, hb, hc]⟩

theorem exists_faithful : ∃ cell ∈ slice.cells, cell.byte = 0x3B ∧ cell.char? = some ';' := by
  obtain ⟨cell, hm, hb⟩ := CodeOutline.IsConcluded.exists_semicolon h
  exact ⟨cell, hm, hb, hf cell hm ';' (by decide) (decide_eq_true hb)⟩

theorem skipSpace (right : List Cell) : slice.skipSpace.IsConcluded ∧
    (slice.append right).skipSpace = slice.skipSpace.append right := by
  refine h.drop_run fun cell hm ht hb => ?_
  rw [Cell.within, hf cell hm ';' (by decide) (decide_eq_true hb)] at ht
  exact absurd ht (by decide)

omit hf in
theorem skipBlank (right : List Cell) : slice.skipBlank.IsConcluded ∧
    (slice.append right).skipBlank = slice.skipBlank.append right := by
  refine h.drop_run fun cell _ ht hb => ?_
  exact absurd ((Delimiter.not_isBlank_semicolon hb).symm.trans ht) Bool.false_ne_true

theorem declarator_append (right : List Cell) :
    Declarator.read? (slice.append right) = (Declarator.read? slice).map fun declarator =>
      { declarator with rest := declarator.rest.append right } := by
  obtain ⟨cell, hm, _, hc⟩ := h.exists_faithful hf
  exact Declarator.read?_append_eq ⟨cell, hm, by rw [Cell.within, hc]; rfl⟩ right

theorem declarator_rest {declarator : Declarator} (hd : Declarator.read? slice = some declarator) :
    declarator.rest.IsConcluded := by
  obtain ⟨cell, hm, hb, hc⟩ := h.exists_faithful hf
  have ht := (Declarator.read?_spec hd).2.2.1
  refine h.of_isTail ht ⟨cell, ?_, Delimiter.not_isBlank_semicolon hb⟩
  have hwithin := (Declarator.read?_within hd).2 cell
  obtain ⟨before, hcells, hstart⟩ := ht
  rw [hcells] at hm
  refine (List.mem_append.1 hm).resolve_left fun hm => ?_
  have hphrase := hwithin (by
    rw [Slice.toOffset, Slice.take, hcells, hstart, Nat.add_sub_cancel_left, List.take_left]
    exact hm)
  rw [Cell.within, hc] at hphrase
  exact absurd hphrase (by decide)

/-- The declaration of the text, or the lack of one, is that of a longer text. -/
theorem declaration_append (right : List Cell) :
    Declaration.read? (slice.append right) = Declaration.read? slice := by
  rw [Declaration.read?, Declaration.read?, h.declarator_append hf]
  cases hd : Declarator.read? slice with
  | none => rfl
  | some declarator =>
    have hrest := h.declarator_rest hf hd
    have ht := (Declarator.read?_spec hd).2.2.1
    have hfaithful : ∀ cell ∈ declarator.rest.cells, cell.IsFaithful :=
      fun cell hm => hf cell (ht.isPart.subset hm)
    obtain ⟨hsuffix, hlt⟩ := Declarator.keepsSuffixes_concluded hrest hfaithful none
      declarator.rest.start (fun _ hs => by cases hs) right
    obtain ⟨hle, _⟩ := Declarator.suffixEnd_bounds false none declarator.rest.start
      declarator.rest.cells (Nat.le_refl _)
    have hafter : (declarator.rest.append right).fromOffset _ = _ :=
      Slice.append_fromOffset (Nat.le_of_lt hlt)
    have htail := Slice.isTail_fromOffset hle (Nat.le_of_lt hlt)
    have hne : (declarator.rest.fromOffset
        (Declarator.suffixEnd false none declarator.rest.start declarator.rest.cells)).cells ≠ [] := by
      rw [Option.getD_none] at hle
      rw [Slice.fromOffset, ne_eq, List.drop_eq_nil_iff]
      omega
    simp only [Option.map_some, Option.bind_some]
    rw [show (declarator.rest.append right).cells = declarator.rest.cells ++ right from rfl,
      show (declarator.rest.append right).start = declarator.rest.start from rfl, hsuffix, hafter]
    generalize declarator.rest.fromOffset _ = after at hne htail ⊢
    simp only [Slice.append_startsWith hne]
    split
    · next hs =>
      have hconcluded : after.IsConcluded := hrest.of_isTail htail (exists_solid hs (by decide))
      obtain ⟨hvalue, hdrop⟩ := hconcluded.drop_one hs (by decide) right
      rw [hdrop, hvalue.find?_append]
      cases hfind : (after.drop 1).find? 0x3B with
      | none => rfl
      | some stop =>
        have hstop := (Slice.find?_bounds hfind).2
        simp only [Option.map_some, Slice.append_toOffset (Nat.le_of_lt hstop)]
        rfl
    · rfl

theorem function_append (right : List Cell) :
    FunctionDefinition.read? (slice.append right) = FunctionDefinition.read? slice := by
  rw [FunctionDefinition.read?, FunctionDefinition.read?, h.declarator_append hf]
  cases hd : Declarator.read? slice with
  | none => rfl
  | some declarator =>
    have hrest := h.declarator_rest hf hd
    have ht := (Declarator.read?_spec hd).2.2.1
    obtain ⟨hlist, hskip⟩ := hrest.skipSpace (fun cell hm => hf cell (ht.isPart.subset hm)) right
    simp only [Option.map_some, Option.bind_some, hskip, Slice.append_startsWith hlist.ne_nil]
    split
    · next hp =>
      obtain ⟨_, entries, after, _, hblock, hafter, happend⟩ := hlist.exists_block hp rfl
      obtain ⟨hbraced, hskip⟩ := hafter.skipBlank right
      simp only [(happend right).2, hblock, Option.bind_some, hskip,
        Slice.append_startsWith hbraced.ne_nil]
      split
      · next hb =>
        obtain ⟨_, body, _, hclose, hblock, _, happend⟩ := hbraced.exists_block hb rfl
        simp only [(happend right).1, (happend right).2, hclose, hblock]
        rfl
      · rfl
    · rfl

omit hf in
theorem function_last {function : FunctionDefinition}
    (hr : FunctionDefinition.read? slice = some function) :
    function.extent.last < slice.stop := by
  obtain ⟨_, cell, rest, _, _, _, htail, hb, hclosing, _⟩ := FunctionDefinition.read?_opening hr
  have hs : (Slice.mk function.opening (cell :: rest)).startsWith '{' := decide_eq_true hb
  have hbraced := h.of_isTail htail (exists_solid hs (by decide))
  obtain ⟨close, _, _, hclose, _⟩ := hbraced.exists_block hs rfl
  have hlt := (Slice.close?_bounds hclose).2
  simp only [Slice.close?, hb] at hclose
  rw [FunctionDefinition.extent, hclosing.trans hclose, Option.getD_some, ← htail.stop_eq]
  exact hlt

end Slice.IsConcluded

end CodeOutline
