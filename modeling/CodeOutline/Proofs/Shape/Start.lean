import CodeOutline.Proofs.Delimiter.Start
import CodeOutline.Proofs.Shape.Part

namespace CodeOutline

open Slice (IsPart IsTail)

namespace Declarator

variable {text slice : Slice} {declarator : Declarator} {start : Nat} {cell : Cell}

theorem isInert_of_within (hf : cell.IsFaithful) (h : cell.within isPhraseChar) :
    Delimiter.isInert cell.byte ∧ cell.byte ≠ 0x3B := by
  have hne {c : Char} (hc : c.toNat < 128) (hn : isPhraseChar c = false) :
      cell.byte ≠ c.val.toUInt8 := hf.byte_ne h hc hn
  have hparen : cell.byte ≠ 0x28 := hne (c := '(') (by decide) (by decide)
  have hparen' : cell.byte ≠ 0x29 := hne (c := ')') (by decide) (by decide)
  have hsquare : cell.byte ≠ 0x5B := hne (c := '[') (by decide) (by decide)
  have hsquare' : cell.byte ≠ 0x5D := hne (c := ']') (by decide) (by decide)
  have hbrace : cell.byte ≠ 0x7B := hne (c := '\x7b') (by decide) (by decide)
  have hbrace' : cell.byte ≠ 0x7D := hne (c := '\x7d') (by decide) (by decide)
  have hsemicolon : cell.byte ≠ 0x3B := hne (c := ';') (by decide) (by decide)
  simp only [Delimiter.isInert, Delimiter.isOpener, Delimiter.isCloser, hparen, hparen', hsquare,
    hsquare', hbrace, hbrace', decide_false, Bool.or_false, Bool.not_false, Bool.and_self,
    ne_eq, hsemicolon, not_false_eq_true, and_self]

theorem isInert_of_read? (hf : ∀ cell ∈ slice.cells, cell.IsFaithful)
    (h : read? slice = some declarator) :
    ∀ cell ∈ (slice.toOffset declarator.rest.start).cells,
      Delimiter.isInert cell.byte ∧ cell.byte ≠ 0x3B := by
  intro cell hm
  exact isInert_of_within (hf cell (List.mem_of_mem_take hm)) ((read?_within h).2 cell hm)

theorem isInert_of_skipSpace (hf : ∀ cell ∈ slice.cells, cell.IsFaithful)
    (h : read? slice = some declarator) :
    ∀ cell ∈ (slice.toOffset declarator.rest.skipSpace.start).cells,
      Delimiter.isInert cell.byte ∧ cell.byte ≠ 0x3B := by
  obtain ⟨before, hc, hs⟩ := (read?_spec h).2.2.1
  have hbefore : (slice.toOffset declarator.rest.start).cells = before := by
    rw [Slice.toOffset, Slice.take, hs, Nat.add_sub_cancel_left, hc, List.take_left]
  have hlength : declarator.rest.skipSpace.start - slice.start =
      before.length + declarator.rest.run (Cell.within CharClass.isSpace) := by
    simp only [Slice.skipSpace, Slice.drop, hs]
    omega
  have hspaces := List.prefix_iff_eq_take.1
    (List.takeWhile_prefix (Cell.within CharClass.isSpace) (l := declarator.rest.cells))
  intro cell hm
  rw [Slice.toOffset, Slice.take, hlength, hc, List.take_length_add_append, Slice.run, ← hspaces,
    List.mem_append] at hm
  rcases hm with hm | hm
  · exact isInert_of_read? hf h cell (hbefore ▸ hm)
  · have hrest := hc ▸ List.mem_append_right before ((List.takeWhile_sublist _).subset hm)
    exact isInert_of_within (hf cell hrest) (within_phrase_of_separator
      (Cell.within_mono (fun _ hc => Bool.or_eq_true_iff.2 (.inl hc)) (List.mem_takeWhile_imp hm)))

theorem skipSpace_le_of_start {boundaries : Boundaries} (hm : boundaries ≠ .topLevelLines)
    (hf : ∀ cell ∈ text.cells, cell.IsFaithful) (ht : IsTail slice text)
    (h : read? slice = some declarator) (hs : slice.start ∈ text.statementStarts boundaries)
    (hs' : start ∈ text.statementStarts boundaries) (hlt : slice.start < start) :
    declarator.rest.skipSpace.start ≤ start := by
  have hfs : ∀ cell ∈ slice.cells, cell.IsFaithful := fun cell hc => hf cell (ht.isPart.subset hc)
  have hlist := ((Slice.isTail_skipSpace declarator.rest).trans (read?_spec h).2.2.1).isPart
  have hlength := Slice.length_toOffset
    (Nat.le_trans declarator.rest.skipSpace.start_le_stop hlist.stop_le)
  have hstart := hlist.start_le
  obtain ⟨braces, parens, pending, hstarts⟩ := ht.exists_startsFrom boundaries
  have happend :=
    List.take_append_drop (declarator.rest.skipSpace.start - slice.start) slice.cells
  rw [hstarts _ (Nat.le_refl _), ← happend] at hs
  rw [hstarts _ (Nat.le_of_lt hlt), ← happend] at hs'
  have hle := Delimiter.le_of_mem_startsFrom_inert hm (isInert_of_skipSpace hfs h) hs hs' hlt
  rw [hlength] at hle
  omega

/-- The name at a statement start stands before the next one. -/
theorem name_lt_of_start {boundaries : Boundaries} (hm : boundaries ≠ .topLevelLines)
    (hf : ∀ cell ∈ text.cells, cell.IsFaithful) (ht : IsTail slice text)
    (h : read? slice = some declarator) (hs : slice.start ∈ text.statementStarts boundaries)
    (hs' : start ∈ text.statementStarts boundaries) (hlt : slice.start < start) :
    declarator.name.start < start := by
  have hname := (read?_within h).1
  have hspace := (Slice.isTail_skipSpace declarator.rest).isPart.start_le
  have hle := skipSpace_le_of_start hm hf ht h hs hs' hlt
  omega

end Declarator

namespace FunctionDefinition

variable {text slice head : Slice} {function : FunctionDefinition} {declarator : Declarator}
  {start : Nat}

theorem mem_findAll :
    function ∈ findAll text ↔ ∃ head ∈ text.heads .topLevel, read? head = some function := by
  rw [findAll, Slice.filterMap_statementStarts, List.mem_filterMap]

/-- The head of a definition is a declarator before an opening brace, which the next brace that is
left over closes. -/
theorem read?_opening (h : read? slice = some function) :
    ∃ declarator cell rest, Declarator.read? slice = some declarator ∧
      function.name = declarator.name.text ∧ function.nameOffset = declarator.name.start ∧
      IsTail ⟨function.opening, cell :: rest⟩ slice ∧ cell.byte = 0x7B ∧
      function.closing = Delimiter.closeFrom 0x7B 0x7D 0 (function.opening + 1) rest ∧
      function.body.start = function.opening + 1 := by
  rw [read?, Option.bind_eq_some_iff] at h
  obtain ⟨declarator, hd, h⟩ := h
  obtain ⟨_, _, hr, _⟩ := Declarator.read?_spec hd
  simp only at h
  split at h
  · rw [Option.bind_eq_some_iff] at h
    obtain ⟨⟨entries, after⟩, hb, h⟩ := h
    have ht := (Slice.isTail_skipBlank after).trans ((Slice.block?_spec hb).2.1.trans
      ((Slice.isTail_skipSpace declarator.rest).trans hr))
    simp only at h
    generalize after.skipBlank = braced at h ht
    split at h
    · next hbrace =>
      cases h
      obtain ⟨position, cells⟩ := braced
      cases cells with
      | nil => cases hbrace
      | cons cell rest =>
        have hbyte : cell.byte = 0x7B := of_decide_eq_true hbrace
        refine ⟨declarator, cell, rest, hd, rfl, rfl, ht, hbyte, ?_, ?_⟩
        · simp only [Slice.close?, hbyte]
          rfl
        · simp only
          split
          · next body after hb =>
            rw [Slice.block?, Option.map_eq_some_iff] at hb
            obtain ⟨close, _, he⟩ := hb
            cases he
            rfl
          · rfl
    · cases h
  · cases h

/-- At the top level no statement starts in a body. -/
theorem last_lt_of_start (ht : IsTail head text) (h : read? head = some function)
    (hs : start ∈ text.statementStarts .topLevel) (hlt : function.opening < start) :
    function.extent.last < start := by
  obtain ⟨_, cell, rest, _, _, _, htail, hbyte, hclosing, _⟩ := read?_opening h
  obtain ⟨braces, parens, pending, hstarts⟩ :=
    (htail.trans ht).exists_startsFrom .topLevel
  rw [hstarts start (Nat.le_of_lt hlt), Delimiter.startsFrom_cons, List.mem_append] at hs
  have hafter : start ∈ Delimiter.startsFrom .topLevel (braces + 1)
      (Delimiter.parensAfter parens 0x7B) false (function.opening + 1) rest := by
    rcases hs with hs | hs
    · split at hs
      · have := List.mem_singleton.1 hs
        simp only at this
        omega
      · cases hs
    · have hends : (Delimiter.endsStatement .topLevel braces parens cell.byte ||
          (pending && cell.isBlank)) = false := by
        rw [Cell.isBlank, hbyte]
        simp [Delimiter.endsStatement, CharClass.isBlank]
      rw [hends, hbyte] at hs
      exact hs
  obtain ⟨close, hc, hlt⟩ :=
    Delimiter.exists_closeFrom_of_mem_startsFrom (Nat.succ_pos braces) hafter
  rw [extent, hclosing, hc]
  exact hlt

/-- No body holds a name that is read at the top level. -/
theorem not_contains_name (hf : ∀ cell ∈ text.cells, cell.IsFaithful) (ht : IsTail head text)
    (h : read? head = some function) (ht' : IsTail slice text)
    (hs : slice.start ∈ text.statementStarts .topLevel)
    (hd : Declarator.read? slice = some declarator) :
    function.extent.contains declarator.name.start = false := by
  have hname := (Declarator.read?_spec hd).2.1.start_le
  obtain ⟨hrest, -⟩ := Declarator.read?_within hd
  rw [Bool.eq_false_iff]
  intro hin
  simp only [Extent.contains, Bool.and_eq_true, decide_eq_true_eq] at hin
  obtain ⟨hfirst, hlast⟩ := hin
  have hfirst : function.opening ≤ declarator.name.start := hfirst
  by_cases hlt : function.opening < slice.start
  · have := last_lt_of_start ht h hs hlt
    omega
  · obtain ⟨_, cell, rest, _, _, _, htail, hbyte, _⟩ := read?_opening h
    have hopening := (htail.trans ht).of_le ht' (Nat.le_of_not_lt hlt)
    have hcells : ∀ cell ∈ slice.cells, cell.IsFaithful :=
      fun cell hc => hf cell (ht'.isPart.subset hc)
    have hinert := Declarator.isInert_of_read? hcells hd cell
      (hopening.mem_toOffset rfl (Nat.lt_of_le_of_lt hfirst hrest))
    rw [hbyte] at hinert
    exact absurd hinert.1 (by decide)

theorem pairwise_findAll (hf : ∀ cell ∈ text.cells, cell.IsFaithful) :
    (findAll text).Pairwise fun left right =>
      left.start < right.start ∧ left.nameOffset < right.nameOffset := by
  rw [findAll, Slice.filterMap_statementStarts, List.pairwise_filterMap]
  refine (text.pairwise_heads .topLevel).imp_of_mem ?_
  intro left right hl hr hlt function hfunction other hother
  obtain ⟨declarator, _, _, hd, _, hname, _⟩ := read?_opening hfunction
  obtain ⟨declarator', _, _, hd', _, hname', _⟩ := read?_opening hother
  have hle := (Declarator.read?_spec hd').2.1.start_le
  have hbefore := Declarator.name_lt_of_start (by simp) hf (Slice.isTail_of_mem_heads hl) hd
    (Slice.start_mem_of_mem_heads hl) (Slice.start_mem_of_mem_heads hr) hlt
  rw [(read?_spec hfunction).1, (read?_spec hother).1, hname, hname']
  exact ⟨hlt, Nat.lt_of_lt_of_le hbefore hle⟩

end FunctionDefinition

theorem Declaration.mem_findGlobals {text : Slice} {functions : List FunctionDefinition}
    {declaration : Declaration} : declaration ∈ findGlobals text functions ↔
      (∃ head ∈ text.heads .topLevel, read? head = some declaration) ∧
        ∀ function ∈ functions, function.extent.contains declaration.start = false := by
  rw [findGlobals, List.mem_filter, Slice.filterMap_statementStarts, List.mem_filterMap,
    Bool.not_eq_true', List.any_eq_false]
  simp only [Bool.not_eq_true]

end CodeOutline
