import CodeOutline.Proofs.Checked.Masked
import CodeOutline.Proofs.Checked.Recognition

namespace CodeOutline

open Slice (IsPart IsTail IsWhole)

theorem Cell.IsFaithful.isSpace_of_isBlank {cell : Cell} (hf : cell.IsFaithful)
    (h : cell.isBlank) : cell.within CharClass.isSpace := by
  obtain ⟨c, hc, hs⟩ := hf.exists_of_isBlank h
  rw [within, hc]
  exact CharClass.isSpace_of_isAsciiSpace hs

namespace Declarator

theorem suffixEnd_next (multiline : Bool) (opened : Option Nat) (position : Nat)
    (cells : List Cell) :
    suffixEnd multiline opened position cells ∈ opened ∨
      position ≤ suffixEnd multiline opened position cells ∧
        ∀ cell ∈ (cells.drop (suffixEnd multiline opened position cells - position)).head?,
          cell.isAscii '[' ∨ cell.within CharClass.isSpace = false := by
  induction cells generalizing opened position with
  | nil =>
    cases opened with
    | none => exact .inr ⟨Nat.le_refl _, fun cell hm => by simp at hm⟩
    | some start => exact .inl rfl
  | cons cell rest ih =>
    have hlater {stop : Nat} (h : position + 1 ≤ stop ∧
        ∀ other ∈ (rest.drop (stop - (position + 1))).head?,
          other.isAscii '[' ∨ other.within CharClass.isSpace = false) :
        position ≤ stop ∧ ∀ other ∈ ((cell :: rest).drop (stop - position)).head?,
          other.isAscii '[' ∨ other.within CharClass.isSpace = false := by
      have hcount : stop - position = stop - (position + 1) + 1 := by omega
      rw [hcount, List.drop_succ_cons]
      exact ⟨by omega, h.2⟩
    rw [suffixEnd.eq_def]
    cases opened with
    | none =>
      simp only
      split
      · next hb =>
        rcases ih (some position) (position + 1) with h | h
        · rw [← Option.mem_some.1 h, Nat.sub_self]
          exact .inr ⟨Nat.le_refl _, fun other hm => by cases hm; exact .inl hb⟩
        · exact .inr (hlater h)
      · split
        · exact .inr (hlater ((ih none (position + 1)).resolve_left (by simp)))
        · next hs =>
          rw [Nat.sub_self]
          exact .inr ⟨Nat.le_refl _, fun other hm => by cases hm; exact .inr (by simpa using hs)⟩
    | some start =>
      simp only
      split
      · exact .inr (hlater ((ih none (position + 1)).resolve_left (by simp)))
      · split
        · exact .inl rfl
        · exact (ih (some start) (position + 1)).imp_right hlater

theorem skipBlank_suffixEnd (rest : Slice) (hf : ∀ cell ∈ rest.cells, cell.IsFaithful) :
    (rest.fromOffset (suffixEnd false none rest.start rest.cells)).skipBlank =
      rest.fromOffset (suffixEnd false none rest.start rest.cells) := by
  obtain ⟨_, hnext⟩ := (suffixEnd_next false none rest.start rest.cells).resolve_left (by simp)
  generalize suffixEnd false none rest.start rest.cells = stop at hnext ⊢
  cases hc : rest.cells.drop (stop - rest.start) with
  | nil => rw [Slice.fromOffset, hc]; rfl
  | cons cell others =>
    have hsolid : ¬ cell.isBlank := by
      intro hblank
      rcases hnext cell (by rw [hc]; rfl) with hb | hs
      · rw [Cell.isAscii, decide_eq_true_eq] at hb
        rw [Cell.isBlank, hb] at hblank
        exact absurd hblank (by decide)
      · have hmem : cell ∈ rest.cells := List.mem_of_mem_drop (hc ▸ List.mem_cons_self)
        rw [(hf cell hmem).isSpace_of_isBlank hblank] at hs
        cases hs
    have hrun : (rest.fromOffset stop).run Cell.isBlank = 0 := by
      rw [Slice.run, Slice.fromOffset, hc, List.takeWhile_cons_of_neg hsolid]
      rfl
    rw [Slice.skipBlank, hrun]
    rfl

end Declarator

/-- The declaration by offsets. -/
def Declaration.shape (declaration : Declaration) : DeclarationShape where
  start := declaration.start
  declaredType := declaration.declaredType
  name := declaration.name
  nameOffset := declaration.nameOffset
  initializer := declaration.initializer.map Slice.span
  stop := declaration.stop

/-- The function definition by offsets. -/
def FunctionDefinition.shape (function : FunctionDefinition) : FunctionShape where
  start := function.start
  returnType := function.returnType
  name := function.name
  nameOffset := function.nameOffset
  parameters := function.parameters
  opening := function.opening
  closing := function.closing
  body := function.body.span

namespace Checked

variable {text : String} {slice : Slice}

/-- The masked text up to a limit. -/
def upTo (text : String) (limit : Nat) : Slice :=
  (Source.ofString text).view.toOffset limit

theorem isTail_upTo (h : IsWhole (maskedChars text) slice) :
    IsTail slice (upTo text slice.stop) := by
  obtain ⟨before, after, hc, hs⟩ := h.isPart
  have hcells : (Source.ofString text).view.cells = (before ++ slice.cells) ++ after := by
    rw [List.append_assoc]
    exact hc
  rw [Slice.laid_start, Nat.zero_add] at hs
  have hcount : slice.stop - (Source.ofString text).view.start =
      (before ++ slice.cells).length := by
    rw [List.length_append, ← hs]
    rfl
  refine ⟨before, ?_, hs.trans (Nat.zero_add _).symm⟩
  rw [upTo, Slice.toOffset, Slice.take, hcount, hcells, List.take_left]

theorem isWhole_upTo (h : IsWhole (maskedChars text) slice) :
    IsWhole (maskedChars text) (upTo text slice.stop) where
  isPart := Slice.isPart_toOffset ..
  start := Cell.isBoundary_layout [] (maskedChars text)
  stop := by
    rw [← (isTail_upTo h).stop_eq]
    exact h.stop

theorem cut_upTo (h : IsWhole (maskedChars text) slice) :
    cut (Source.ofString text).view ⟨0, slice.stop⟩ = .ok (upTo text slice.stop) := by
  have hcut := cut_view (isWhole_upTo h)
  rwa [Slice.span, ← (isTail_upTo h).stop_eq] at hcut

theorem cut_tail (h : IsWhole (maskedChars text) slice) :
    cut (upTo text slice.stop) ⟨slice.start, (upTo text slice.stop).stop⟩ = .ok slice := by
  rw [← (isTail_upTo h).stop_eq]
  exact cut_eq rfl (isWhole_upTo h) h (isTail_upTo h).isPart

theorem window_eq (h : IsWhole (maskedChars text) slice) :
    window (Source.ofString text) slice.start slice.stop = .ok (upTo text slice.stop, slice) := by
  rw [window, cut_upTo h, ok_bind, cut_tail h]
  rfl

theorem isFaithful_of_isWhole (h : IsWhole (maskedChars text) slice) :
    ∀ cell ∈ slice.cells, cell.IsFaithful :=
  fun cell hm => Cell.isFaithful_of_mem_layout _ cell (h.isPart.subset hm)

theorem findFrom_tail (h : IsWhole (maskedChars text) slice) {tail : Slice}
    (ht : IsTail tail slice) (byte : UInt8) :
    findFrom (upTo text slice.stop) tail.start slice.stop byte = tail.find? byte := by
  rw [← ht.stop_eq]
  exact findFrom_eq (ht.stop_eq ▸ ht.trans (isTail_upTo h))

theorem skipFrom_tail (h : IsWhole (maskedChars text) slice) {tail : Slice}
    (ht : IsTail tail slice) :
    skipFrom (upTo text slice.stop) tail.start = tail.next?.map Slice.start :=
  skipFrom_eq (ht.trans (isTail_upTo h))

theorem expect_tail (h : IsWhole (maskedChars text) slice) {tail : Slice}
    (ht : IsTail tail slice) (c : Char) :
    expect (upTo text slice.stop) tail.start c.val.toUInt8 =
      .ok (if tail.skipBlank.startsWith c then some tail.skipBlank.start else none) :=
  expect_eq rfl (ht.trans (isTail_upTo h)) c

theorem closing?_tail (h : IsWhole (maskedChars text) slice) {tail : Slice}
    (ht : IsTail tail slice) : closing? (upTo text slice.stop) tail.start = tail.close? :=
  closing?_eq rfl (ht.trans (isTail_upTo h))

theorem block?_cases (slice : Slice) :
    (slice.close? = none ∧ slice.block? = none) ∨ ∃ close inner after,
      slice.close? = some close ∧ slice.block? = some (inner, after) ∧
        inner.span = ⟨slice.start + 1, close⟩ ∧ after.start = close + 1 := by
  rw [Slice.block?]
  cases hc : slice.close? with
  | none => exact .inl ⟨rfl, rfl⟩
  | some close =>
    obtain ⟨hl, hr⟩ := Slice.close?_bounds hc
    refine .inr ⟨close, _, _, rfl, rfl, ?_, rfl⟩
    have hlength : ((slice.toOffset close).drop 1).cells.length = close - slice.start - 1 := by
      rw [Slice.drop, List.length_drop, Slice.length_toOffset (Nat.le_of_lt hr)]
    have hstart : ((slice.toOffset close).drop 1).start = slice.start + 1 := rfl
    rw [Slice.span, Slice.stop, hlength, hstart]
    congr 1
    omega

theorem span_toOffset {value : Slice} {stop : Nat} (hs : value.start ≤ stop)
    (hle : stop ≤ value.stop) : (value.toOffset stop).span = ⟨value.start, stop⟩ := by
  have hlength := Slice.length_toOffset hle
  rw [Slice.span, Slice.stop, hlength]
  exact congrArg (Span.mk _) (Nat.add_sub_cancel' hs)

theorem declaration_eq (h : IsWhole (maskedChars text) slice) :
    declaration (Source.ofString text) slice.start slice.stop =
      .ok ((Declaration.read? slice).map Declaration.shape) := by
  rw [declaration, window_eq h, ok_bind, Declaration.read?]
  cases hd : Declarator.read? slice with
  | none => simp only [hd]; rfl
  | some declarator =>
    obtain ⟨hstart, _, hrest, _⟩ := Declarator.read?_spec hd
    have ht := Declarator.isTail_suffixed hd
    have hskip := Declarator.skipBlank_suffixEnd declarator.rest fun cell hm =>
      isFaithful_of_isWhole h cell (hrest.isPart.subset hm)
    simp only [hd, Option.bind_some]
    generalize declarator.rest.fromOffset _ = suffixed at ht hskip ⊢
    split
    · next hs =>
      have hfind : findFrom (upTo text slice.stop) (suffixed.start + 1) slice.stop 0x3B =
          (suffixed.drop 1).find? 0x3B :=
        findFrom_tail h ((Slice.isTail_drop_one hs).trans ht) 0x3B
      rw [hfind]
      cases hf : (suffixed.drop 1).find? 0x3B with
      | none => rfl
      | some stop =>
        obtain ⟨hl, hr⟩ := Slice.find?_bounds hf
        have hspan : ((suffixed.drop 1).toOffset stop).span = ⟨suffixed.start + 1, stop⟩ :=
          span_toOffset hl (Nat.le_of_lt hr)
        simp only [Option.map_some, pure_eq_ok, Declaration.shape, Declaration.ofDeclarator, hspan,
          hstart]
    · have hexpect := expect_tail h ht ';'
      rw [hskip] at hexpect
      rw [show (0x3B : UInt8) = ';'.val.toUInt8 from rfl, hexpect, ok_bind]
      split
      · simp only [Option.map_some, pure_eq_ok, Declaration.shape, Declaration.ofDeclarator, hstart,
          Option.map_none]
      · rfl

theorem isWhole_initializer {chars : List Char} (h : IsWhole chars slice)
    {declaration : Declaration} (hd : Declaration.read? slice = some declaration) :
    ∀ value ∈ declaration.initializer, IsWhole chars value := by
  rw [Declaration.read?, Option.bind_eq_some_iff] at hd
  obtain ⟨declarator, hr, hd⟩ := hd
  have ht := Declarator.isTail_suffixed hr
  simp only at hd
  generalize declarator.rest.fromOffset _ = suffixed at hd ht
  intro value hm
  split at hd
  · next hs =>
    obtain ⟨stop, hf, rfl⟩ := Option.map_eq_some_iff.1 hd
    cases hm
    have hwhole := (h.of_startsWith ht (by decide) hs).drop_one (by decide) hs
    exact (hwhole.find? (by decide) hf).1
  · obtain ⟨_, he⟩ := Option.ite_none_right_eq_some.1 hd
    cases he
    cases hm

theorem name?_begins {position : Nat} {cells : List Cell} {name : Slice}
    (h : Parameter.name? position cells = some name) : ∃ cell rest,
      IsTail ⟨name.start, cell :: rest⟩ ⟨position, cells⟩ ∧ cell.begins CharClass.isWordStart := by
  induction cells generalizing position with
  | nil => cases h
  | cons cell rest ih =>
    have hlater (h : Parameter.name? (position + 1) rest = some name) : ∃ first others,
        IsTail ⟨name.start, first :: others⟩ ⟨position, cell :: rest⟩ ∧
          first.begins CharClass.isWordStart := by
      obtain ⟨first, others, ht, hb⟩ := ih h
      exact ⟨first, others, ht.trans (Slice.isTail_cons ..), hb⟩
    rw [Parameter.name?] at h
    split at h
    · next word after hw =>
      split at h
      · cases h
        obtain ⟨first, _, _, hc, rfl, _, hb, _⟩ := Slice.word?_append hw
        obtain ⟨rfl, rfl⟩ := List.cons.inj hc
        exact ⟨_, _, IsTail.refl _, hb⟩
      · exact hlater h
    · exact hlater h

theorem isWhole_toOffset_name {chars : List Char} {entry name : Slice} (h : IsWhole chars entry)
    (hn : Parameter.name? entry.start entry.cells = some name) :
    IsWhole chars (entry.toOffset name.start) ∧
      (entry.toOffset name.start).span = ⟨entry.start, name.start⟩ := by
  obtain ⟨cell, rest, ht, hb⟩ := name?_begins hn
  have htail : IsTail ⟨name.start, cell :: rest⟩ entry := ht
  have hname := h.of_isTail htail fun other hm => by
    cases hm
    rw [Cell.begins, Option.any_eq_true] at hb
    obtain ⟨c, hc, _⟩ := hb
    rw [Option.mem_def.1 hc]
    rfl
  have hstop := htail.stop_eq
  have hle := Slice.start_le_stop (Slice.mk name.start (cell :: rest))
  have hwhole : IsWhole chars (entry.toOffset (Slice.mk name.start (cell :: rest)).start) :=
    h.toOffset htail hname.start
  exact ⟨hwhole, span_toOffset htail.isPart.start_le (hstop ▸ hle)⟩

theorem parameter_eq (h : IsWhole (maskedChars text) slice) (index : Nat) :
    parameter (Source.ofString text) index slice.span =
      .ok (if Parameter.isVacant slice.trim then none
        else some (Parameter.ofEntry index slice.trim)) := by
  rw [parameter, trim_eq h.isPart, ok_bind, cut_view h.trim, ok_bind, Parameter.ofEntry]
  split
  · rfl
  · cases hn : Parameter.name? slice.trim.start slice.trim.cells with
    | none => rfl
    | some name =>
      obtain ⟨hwhole, hspan⟩ := isWhole_toOffset_name h.trim hn
      have hfragment := maskedFragment_eq hwhole
      rw [hspan] at hfragment
      simp only [Slice.span, hfragment, ok_bind]
      rfl

theorem parameters_eq (h : IsWhole (maskedChars text) slice) :
    parameters (Source.ofString text) slice.span = .ok (Parameter.readList slice) := by
  have hsplit : split (Source.ofString text).view slice.span 0x2C =
      .ok ((slice.split 0x2C).map Slice.span) := split_eq rfl h.isPart
  have hfound : (((slice.split 0x2C).map Slice.span).zipIdx.mapM fun entry =>
      parameter (Source.ofString text) entry.2 entry.1) =
        .ok ((slice.split 0x2C).zipIdx.map fun entry =>
          if Parameter.isVacant entry.1.trim then none
          else some (Parameter.ofEntry entry.2 entry.1.trim)) := by
    rw [List.zipIdx_map]
    refine mapM_map_ok fun entry hm => ?_
    exact parameter_eq (h.split (by decide) (List.fst_mem_of_mem_zipIdx hm)) entry.2
  rw [parameters, hsplit, ok_bind, hfound, ok_bind, reduceOption_map, Parameter.readList,
    List.zipIdx_map, List.filterMap_map]
  rfl

theorem function_eq (h : IsWhole (maskedChars text) slice) :
    function (Source.ofString text) slice.start slice.stop =
      .ok ((FunctionDefinition.read? slice).map FunctionDefinition.shape) := by
  rw [function, window_eq h, ok_bind, FunctionDefinition.read?]
  cases hd : Declarator.read? slice with
  | none => simp only [hd]; rfl
  | some declarator =>
    obtain ⟨hstart, _, hrest, _⟩ := Declarator.read?_spec hd
    have hlist : IsTail declarator.rest.skipSpace slice :=
      (Slice.isTail_skipSpace _).trans hrest
    simp only [hd, Option.bind_some]
    generalize declarator.rest.skipSpace = list at hlist ⊢
    split
    · next hs =>
      have hwhole := h.of_startsWith hlist (by decide) hs
      rw [closing?_tail h hlist]
      rcases block?_cases list with ⟨hc, hb⟩ | ⟨close, entries, after, hc, hb, hspan, hnext⟩
      · rw [hc, hb]
        rfl
      · obtain ⟨hentries, hafter⟩ := hwhole.block? hb
        have htail := (Slice.block?_spec hb).2.1.trans hlist
        have hbrace := expect_tail h htail '{'
        rw [hnext] at hbrace
        have hparameters := parameters_eq hentries
        rw [hspan] at hparameters
        have hbraced := (Slice.isTail_skipBlank after).trans htail
        have hclosing := closing?_tail h hbraced
        simp only [hc, hb, Option.bind_some]
        rw [show (0x7B : UInt8) = '{'.val.toUInt8 from rfl, hbrace]
        generalize after.skipBlank = braced at hbraced hclosing ⊢
        split
        · next hopen =>
          simp only [ok_bind, hclosing, hparameters, pure_eq_ok, Option.map_some,
            FunctionDefinition.shape]
          rcases block?_cases braced with ⟨hc', hb'⟩ | ⟨close', body, rest, hc', hb', hspan', _⟩
          · have hbody : (braced.drop 1).span = ⟨braced.start + 1, slice.stop⟩ :=
              congrArg (Span.mk _) ((Slice.isTail_drop_one hopen).trans hbraced).stop_eq
            rw [hc', hb', hbody]
            rfl
          · rw [hc', hb', hspan']
            rfl
        · rfl
    · rfl

end Checked

end CodeOutline
