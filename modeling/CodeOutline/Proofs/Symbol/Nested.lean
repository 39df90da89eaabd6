import CodeOutline.Proofs.Delimiter.Balance
import CodeOutline.Proofs.Delimiter.Found
import CodeOutline.Proofs.Shape.Start
import CodeOutline.Proofs.Source.Mask
import CodeOutline.Proofs.Text.Extent

namespace CodeOutline

namespace FunctionDefinition

open Slice (IsTail)

variable {text slice : Slice} {function left right : FunctionDefinition} {offset : Nat}

theorem last_of_unclosed (h : read? slice = some function) (hc : function.closing = none) :
    function.extent.last = slice.stop := by
  rw [read?, Option.bind_eq_some_iff] at h
  obtain ⟨declarator, hd, h⟩ := h
  obtain ⟨_, _, hr, _⟩ := Declarator.read?_spec hd
  simp only at h
  split at h
  · rw [Option.bind_eq_some_iff] at h
    obtain ⟨⟨entries, after⟩, hb, h⟩ := h
    have ht := (Slice.isTail_skipBlank after).trans ((Slice.block?_spec hb).2.1.trans
      ((Slice.isTail_skipSpace declarator.rest).trans hr))
    simp only at h
    split at h
    · next hs =>
      cases h
      simp only at hc
      simp only [extent, hc, Slice.block?, Option.map_none, Option.getD_none]
      exact ((Slice.isTail_drop_one hs).trans ht).stop_eq
    · cases h
  · cases h

theorem last_le_stop (hm : function ∈ findAll text) : function.extent.last ≤ text.stop := by
  obtain ⟨head, hh, hf⟩ := mem_findAll.1 hm
  rw [← (Slice.isTail_of_mem_heads hh).stop_eq]
  exact (read?_spec hf).2.2.2.2.2

theorem last_le_of_opening_le (hl : left ∈ findAll text) (hr : right ∈ findAll text)
    (hle : left.opening ≤ right.opening) (hin : right.opening ≤ left.extent.last) :
    right.extent.last ≤ left.extent.last := by
  obtain ⟨head, hh, hf⟩ := mem_findAll.1 hl
  obtain ⟨head', hh', hf'⟩ := mem_findAll.1 hr
  have ht := Slice.isTail_of_mem_heads hh
  obtain ⟨_, cell, rest, _, _, _, htail, hb, hclosing, _⟩ := read?_opening hf
  obtain ⟨_, cell', rest', _, _, _, htail', hb', hclosing', _⟩ := read?_opening hf'
  cases hc : left.closing with
  | none =>
    rw [last_of_unclosed hf hc, ht.stop_eq]
    exact last_le_stop hr
  | some close =>
    have hlast : left.extent.last = close := by rw [extent, hc, Option.getD_some]
    rw [hlast] at hin ⊢
    rw [hc] at hclosing
    obtain ⟨close', hclose, hle'⟩ : ∃ close', right.closing = some close' ∧ close' ≤ close := by
      have hplace := htail.trans ht
      have hplace' := htail'.trans (Slice.isTail_of_mem_heads hh')
      rcases Nat.lt_or_eq_of_le hle with hlt | heq
      · obtain ⟨close', hlt', hinner⟩ := Delimiter.exists_closeFrom_of_isTail hplace hplace' hb'
          hclosing.symm hlt hin
        exact ⟨close', by rw [hclosing', hinner], Nat.le_of_lt hlt'⟩
      · have hcells := (Slice.mk.inj (hplace.eq hplace' heq)).2
        rw [← heq, ← (List.cons.inj hcells).2, ← hclosing] at hclosing'
        exact ⟨close, hclosing', Nat.le_refl _⟩
    rw [extent, hclose, Option.getD_some]
    exact hle'

/-- The parentheses of a definition stand at two offsets of a text, and its body opens at the first
place behind them that is not blank. -/
structure HasParens (text : Slice) (function : FunctionDefinition) (paren close : Nat) : Prop where
  left : ∃ cell rest, IsTail ⟨paren, cell :: rest⟩ text ∧ cell.byte = 0x28 ∧
    Delimiter.closeFrom 0x28 0x29 0 (paren + 1) rest = some close
  right : ∃ cell rest, IsTail ⟨close, cell :: rest⟩ text ∧ cell.byte = 0x29
  close_lt : close < function.opening
  opening_le : ∀ place cell rest, IsTail ⟨place, cell :: rest⟩ text → cell.isBlank = false →
    close < place → function.opening ≤ place

theorem exists_hasParens (ht : IsTail slice text) (h : read? slice = some function) :
    ∃ declarator close, Declarator.read? slice = some declarator ∧
      HasParens text function declarator.rest.skipSpace.start close := by
  obtain ⟨declarator, entries, after, hd, hopen, hb, _, _, _, hopening⟩ := read?_parts h
  have hlist := ((Slice.isTail_skipSpace declarator.rest).trans
    (Declarator.read?_spec hd).2.2.1).trans ht
  refine ⟨declarator, ?_⟩
  generalize declarator.rest.skipSpace = list at hopen hb hlist ⊢
  obtain ⟨paren, cells⟩ := list
  have hafter := (Slice.block?_spec hb).2.1.trans hlist
  obtain ⟨close, hc, he⟩ := Option.map_eq_some_iff.1 hb
  cases he
  obtain ⟨cell, inner, closing, rest, hs, hk, hclose⟩ := Slice.close?_spec hc
  cases hs
  have hbyte : cell.byte = 0x28 := of_decide_eq_true hopen
  rw [hbyte] at hk
  simp only [Slice.close?, hbyte] at hc
  refine ⟨close, hd, ⟨cell, _, hlist, hbyte, hc⟩,
    ⟨closing, rest, IsTail.trans ⟨cell :: inner, rfl, ?_⟩ hlist, (Option.some.inj hk).symm⟩, ?_, ?_⟩
  · simp only at hclose ⊢
    rw [List.length_cons]
    omega
  · rw [hopening]
    exact (Slice.isTail_skipBlank (Slice.fromOffset (close + 1) _)).isPart.start_le
  · intro place cell rest hplace hb hlt
    rw [hopening]
    exact (hplace.of_le hafter hlt).start_skipBlank_le hb

theorem HasParens.opening_ne {paren paren' close close' : Nat}
    (h : HasParens text left paren close) (h' : HasParens text right paren' close')
    (hlt : paren < paren') : left.opening ≠ right.opening := by
  obtain ⟨cell, rest, hparen, _, hclose⟩ := h.left
  obtain ⟨closing, _, hcloses, hb⟩ := h.right
  obtain ⟨cell', rest', hparen', hb', hclose'⟩ := h'.left
  have hblank : closing.isBlank = false := by
    rw [Cell.isBlank, hb]
    decide
  have hblank' : cell'.isBlank = false := by
    rw [Cell.isBlank, hb']
    decide
  have hopening := h.close_lt
  have hopening' := h'.close_lt
  -- The later list opens behind the earlier one, or is closed in it.
  rcases Nat.lt_or_ge close paren' with hbehind | hle
  · have hbefore := h.opening_le _ _ _ hparen' hblank' hbehind
    have hbounds := (Delimiter.closeFrom_bounds hclose').1
    omega
  · obtain ⟨inner, hinner, he⟩ :=
      Delimiter.exists_closeFrom_of_isTail hparen hparen' hb' hclose hlt hle
    cases hclose'.symm.trans he
    have hbefore := h'.opening_le _ _ _ hcloses hblank hinner
    omega

theorem opening_ne (hf : ∀ cell ∈ text.cells, cell.IsFaithful) (hl : left ∈ findAll text)
    (hr : right ∈ findAll text) (hlt : left.start < right.start) :
    left.opening ≠ right.opening := by
  obtain ⟨head, hh, hread⟩ := mem_findAll.1 hl
  obtain ⟨head', hh', hread'⟩ := mem_findAll.1 hr
  have ht := Slice.isTail_of_mem_heads hh
  have ht' := Slice.isTail_of_mem_heads hh'
  obtain ⟨declarator, close, hd, hlist⟩ := exists_hasParens ht hread
  obtain ⟨declarator', close', hd', hlist'⟩ := exists_hasParens ht' hread'
  rw [(read?_spec hread).1, (read?_spec hread').1] at hlt
  have hbefore := Declarator.skipSpace_le_of_start (by simp) hf ht hd
    (Slice.start_mem_of_mem_heads hh) (Slice.start_mem_of_mem_heads hh') hlt
  have hstart := (Declarator.read?_spec hd').2.1.start_le
  have hname := (Declarator.read?_within hd').1
  have hspace := (Slice.isTail_skipSpace declarator'.rest).isPart.start_le
  exact hlist.opening_ne hlist' (by omega)

/-- Of two bodies around an offset one lies in the other. -/
theorem nested_of_contains (hl : left ∈ findAll text) (hr : right ∈ findAll text)
    (hin : left.extent.contains offset) (hin' : right.extent.contains offset) :
    Extent.Nested left.extent right.extent := by
  simp only [Extent.contains, Bool.and_eq_true, decide_eq_true_eq] at hin hin'
  rcases Nat.le_total left.opening right.opening with hle | hle
  · exact .inr ⟨hle, last_le_of_opening_le hl hr hle (Nat.le_trans hin'.1 hin.2)⟩
  · exact .inl ⟨hle, last_le_of_opening_le hr hl hle (Nat.le_trans hin.1 hin'.2)⟩

theorem opening_lt_last (hm : function ∈ findAll text) :
    function.opening < function.extent.last := by
  obtain ⟨head, _, hread⟩ := mem_findAll.1 hm
  obtain ⟨_, _, _, hbody, hlast, _⟩ := read?_spec hread
  have hstop := function.body.start_le_stop
  omega

/-- Of two bodies the one that opens later stands behind the other or in it. -/
theorem laminar_of_opening_lt (hl : left ∈ findAll text) (hr : right ∈ findAll text)
    (hlt : left.opening < right.opening) : Extent.Laminar left.extent right.extent := by
  rcases Nat.lt_or_ge left.extent.last right.opening with hbehind | hin
  · exact .inl (.inl hbehind)
  · have hlast := last_le_of_opening_le hl hr (Nat.le_of_lt hlt) hin
    have hright := opening_lt_last hr
    refine .inr (.inr ⟨⟨Nat.le_of_lt hlt, hlast⟩, ?_⟩)
    change right.extent.last - right.opening < left.extent.last - left.opening
    omega

theorem pairwise_laminar (hf : ∀ cell ∈ text.cells, cell.IsFaithful) :
    (findAll text).Pairwise fun left right =>
      left.opening ≠ right.opening ∧ Extent.Laminar left.extent right.extent := by
  refine (pairwise_findAll hf).imp_of_mem fun hl hr hlt => ?_
  have hne := opening_ne hf hl hr hlt.1
  refine ⟨hne, ?_⟩
  rcases Nat.lt_or_gt_of_ne hne with hlt | hlt
  · exact laminar_of_opening_lt hl hr hlt
  · exact (laminar_of_opening_lt hr hl hlt).symm

/-- The bodies of a text open at different places, and any two are apart or one of them lies in the
other and is shorter. So exactly one of those around an offset lies in all the others, and it is the
one that is taken for the innermost. -/
theorem laminar_findAll (text : String) :
    let functions := findAll (Source.ofString text).view
    (functions.map (·.opening)).Nodup ∧
    (functions.Pairwise fun left right => Extent.Laminar left.extent right.extent) ∧
    ∀ offset, (∃ function ∈ functions, function.extent.contains offset) →
      ∃ index, Extent.innermost? (functions.map (·.extent)) offset = some index ∧
        ∀ other, Extent.IsInnermost (functions.map (·.extent)) offset other ↔ other = index := by
  intro functions
  have hpairwise := pairwise_laminar (Source.isFaithful_view text)
  have hlaminar := hpairwise.imp And.right
  refine ⟨List.pairwise_map.2 (hpairwise.imp And.left), hlaminar, fun offset hc => ?_⟩
  refine Extent.exists_innermost? (List.pairwise_map.2 hlaminar) ?_
  obtain ⟨function, hm, hin⟩ := hc
  exact ⟨_, List.mem_map_of_mem hm, hin⟩

/-- The list of the first function is not closed before the second one begins. The body of the first
stands in that of the second, and both run to the end of the text. -/
theorem innermost_of_crossing_heads :
    let functions := findAll (Source.ofString "int f(];int g(int x)\x7b)\x7b").view
    functions.map (·.extent) = [⟨22, 23⟩, ⟨20, 23⟩] ∧
      ∀ other, Extent.IsInnermost (functions.map (·.extent)) 23 other ↔ other = 0 := by
  intro functions
  have hextents : functions.map (·.extent) = [⟨22, 23⟩, ⟨20, 23⟩] := by decide +kernel
  have hcontains : ∃ function ∈ functions, function.extent.contains 23 := by decide +kernel
  obtain ⟨index, hindex, hinner⟩ :=
    (laminar_findAll "int f(];int g(int x)\x7b)\x7b").2.2 23 hcontains
  have hfirst : Extent.innermost? [⟨22, 23⟩, ⟨20, 23⟩] 23 = some 0 := by decide
  rw [hextents, hfirst] at hindex
  cases hindex
  exact ⟨hextents, hinner⟩

end FunctionDefinition

end CodeOutline
