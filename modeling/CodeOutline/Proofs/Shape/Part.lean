import CodeOutline.Proofs.Text.Laid
import CodeOutline.Proofs.Text.Part
import CodeOutline.Shape.Function

namespace CodeOutline

namespace Declarator

theorem readWords_bounds (count start : Nat) (stop : Option Nat) (position : Nat)
    (cells : List Cell) (hs : start < stop.getD position) (hp : stop.getD position ≤ position) :
    start ≤ (readWords count start stop position cells).2.1 ∧
      (readWords count start stop position cells).2.1 <
        (readWords count start stop position cells).2.2 ∧
      (readWords count start stop position cells).2.2 ≤ position + cells.length := by
  induction cells generalizing count start stop position with
  | nil => exact ⟨Nat.le_refl _, hs, hp⟩
  | cons cell cells ih =>
    rw [List.length_cons, readWords.eq_def]
    cases stop with
    | none =>
      simp only [Option.getD_none] at hs
      simp only
      split
      · have := ih count start none (position + 1) (Nat.le_succ_of_le hs) (Nat.le_refl _)
        omega
      · split
        · have := ih count start (some position) (position + 1) hs (Nat.le_succ _)
          omega
        · simp only
          omega
    | some stop =>
      simp only [Option.getD_some] at hs hp
      simp only
      split
      · have := ih count start (some stop) (position + 1) hs (Nat.le_succ_of_le hp)
        omega
      · split
        · have := ih (count + 1) position none (position + 1) (Nat.lt_succ_self _) (Nat.le_refl _)
          omega
        · simp only
          omega

/-- What may stand before the end of a declarator's name. -/
def isPhraseChar (c : Char) : Bool :=
  CharClass.isWord c || isSeparator c

theorem within_phrase_of_word {cell : Cell} (h : cell.within CharClass.isWord) :
    cell.within isPhraseChar :=
  Cell.within_mono (fun _ hc => Bool.or_eq_true_iff.2 (.inl hc)) h

theorem within_phrase_of_separator {cell : Cell} (h : cell.within isSeparator) :
    cell.within isPhraseChar :=
  Cell.within_mono (fun _ hc => Bool.or_eq_true_iff.2 (.inr hc)) h

theorem within_phrase_of_begins {cell : Cell} (h : cell.begins CharClass.isWordStart) :
    cell.within isPhraseChar :=
  within_phrase_of_word (Cell.isWord_of_begins h)

/-- Only words, white space and stars stand before the stop of a run of words. -/
theorem readWords_within (count start : Nat) (stop : Option Nat) (position : Nat)
    (cells : List Cell) (hp : stop.getD position ≤ position) :
    ∀ cell ∈ cells.take ((readWords count start stop position cells).2.2 - position),
      cell.within isPhraseChar := by
  induction cells generalizing count start stop position with
  | nil => exact fun cell hm => absurd hm (by simp)
  | cons first rest ih =>
    have hcons {stop : Nat} (hf : first.within isPhraseChar)
        (hr : ∀ cell ∈ rest.take (stop - (position + 1)), cell.within isPhraseChar) :
        ∀ cell ∈ (first :: rest).take (stop - position), cell.within isPhraseChar := by
      cases hn : stop - position with
      | zero => exact fun cell hm => absurd hm (by simp)
      | succ length =>
        have hl : stop - (position + 1) = length := by omega
        rw [hl] at hr
        rw [List.take_succ_cons]
        exact List.forall_mem_cons.2 ⟨hf, hr⟩
    have hstop {stop : Nat} (hle : stop ≤ position) :
        ∀ cell ∈ (first :: rest).take (stop - position), cell.within isPhraseChar := by
      rw [Nat.sub_eq_zero_of_le hle]
      exact fun cell hm => absurd hm (by simp)
    rw [readWords.eq_def]
    cases stop with
    | none =>
      simp only
      split
      · next hw => exact hcons (within_phrase_of_word hw) (ih _ _ _ _ (Nat.le_refl _))
      · split
        · next hs =>
          exact hcons (within_phrase_of_separator (Cell.within_of_begins hs))
            (ih _ _ _ _ (Nat.le_succ _))
        · exact hstop (Nat.le_refl _)
    | some stop =>
      simp only [Option.getD_some] at hp
      simp only
      split
      · next hs =>
        exact hcons (within_phrase_of_separator hs) (ih _ _ _ _ (Nat.le_succ_of_le hp))
      · split
        · next hw => exact hcons (within_phrase_of_begins hw) (ih _ _ _ _ (Nat.le_refl _))
        · exact hstop hp

theorem suffixEnd_bounds (multiline : Bool) (opened : Option Nat) (position : Nat)
    (cells : List Cell) (h : opened.getD position ≤ position) :
    opened.getD position ≤ suffixEnd multiline opened position cells ∧
      suffixEnd multiline opened position cells ≤ position + cells.length := by
  induction cells generalizing opened position with
  | nil => exact ⟨Nat.le_refl _, h⟩
  | cons cell cells ih =>
    rw [List.length_cons, suffixEnd.eq_def]
    cases opened with
    | none =>
      simp only [Option.getD_none] at h ⊢
      split
      · have := ih (some position) (position + 1) (Nat.le_succ _)
        simp only [Option.getD_some] at this
        omega
      · split
        · have := ih none (position + 1) (Nat.le_refl _)
          simp only [Option.getD_none] at this
          omega
        · omega
    | some start =>
      simp only [Option.getD_some] at h ⊢
      split
      · have := ih none (position + 1) (Nat.le_refl _)
        simp only [Option.getD_none] at this
        omega
      · split
        · omega
        · have := ih (some start) (position + 1) (Nat.le_succ_of_le h)
          simp only [Option.getD_some] at this
          omega

open Slice (IsPart IsTail)

variable {slice : Slice} {declarator : Declarator}

theorem read?_eq_some (h : read? slice = some declarator) :
    ∃ cell rest count start stop, slice.cells = cell :: rest ∧
      cell.begins CharClass.isWordStart ∧
      readWords 1 slice.start none (slice.start + 1) rest = (count, start, stop) ∧
      (2 ≤ count ∧ !Keyword.occursIn (slice.toOffset start).text ∧
        !Keyword.isKeyword ((slice.fromOffset start).toOffset stop).text) ∧
      declarator = ⟨slice.toOffset start, (slice.fromOffset start).toOffset stop,
        slice.fromOffset stop⟩ := by
  rw [read?] at h
  cases hc : slice.cells with
  | nil => rw [hc] at h; cases h
  | cons cell rest =>
    rw [hc] at h
    simp only at h
    split at h
    · next hw =>
      split at h
      · next hk =>
        cases h
        exact ⟨cell, rest, _, _, _, rfl, hw, rfl, hk, rfl⟩
      · cases h
    · cases h

theorem read?_spec (h : read? slice = some declarator) :
    declarator.typeWords.start = slice.start ∧ IsPart declarator.name slice ∧
      IsTail declarator.rest slice ∧ declarator.name.stop ≤ declarator.rest.start := by
  obtain ⟨cell, rest, count, start, stop, hc, _, hw, _, rfl⟩ := read?_eq_some h
  have hb := readWords_bounds 1 slice.start none (slice.start + 1) rest (Nat.lt_succ_self _)
    (Nat.le_refl _)
  simp only [hw] at hb
  have hstop : slice.stop = slice.start + 1 + rest.length := by
    rw [Slice.stop, hc, List.length_cons]
    omega
  have ht : IsTail (slice.fromOffset start) slice := Slice.isTail_fromOffset hb.1 (by omega)
  exact ⟨rfl, (Slice.isPart_toOffset ..).trans ht.isPart,
    Slice.isTail_fromOffset (by omega) (by omega), Slice.stop_toOffset_le (Nat.le_of_lt hb.2.1)⟩

theorem read?_within (h : read? slice = some declarator) :
    declarator.name.start < declarator.rest.start ∧
      ∀ cell ∈ (slice.toOffset declarator.rest.start).cells, cell.within isPhraseChar := by
  obtain ⟨first, rest, count, start, stop, hc, hf, hw, _, rfl⟩ := read?_eq_some h
  have hb := readWords_bounds 1 slice.start none (slice.start + 1) rest (Nat.lt_succ_self _)
    (Nat.le_refl _)
  have hr := readWords_within 1 slice.start none (slice.start + 1) rest (Nat.le_refl _)
  simp only [hw] at hb hr
  refine ⟨hb.2.1, ?_⟩
  obtain ⟨length, hl⟩ : ∃ length, stop - slice.start = length + 1 :=
    ⟨stop - (slice.start + 1), by omega⟩
  have hl' : stop - (slice.start + 1) = length := by omega
  simp only [hl'] at hr
  simp only [Slice.toOffset, Slice.take, Slice.fromOffset, hl, hc, List.take_succ_cons]
  exact List.forall_mem_cons.2 ⟨within_phrase_of_begins hf, hr⟩

end Declarator

open Slice (IsPart IsTail)

variable {slice : Slice}

theorem Declarator.isTail_suffixed {declarator : Declarator} (h : read? slice = some declarator) :
    IsTail (declarator.rest.fromOffset
      (suffixEnd false none declarator.rest.start declarator.rest.cells)) slice := by
  have hb := suffixEnd_bounds false none declarator.rest.start declarator.rest.cells (Nat.le_refl _)
  exact (Slice.isTail_fromOffset hb.1 hb.2).trans (read?_spec h).2.2.1

/-- A declaration is a declarator and its suffixes with an equals sign and a value behind them, or a
semicolon. -/
theorem Declaration.read?_eq_some {declaration : Declaration}
    (h : read? slice = some declaration) : ∃ declarator after,
      Declarator.read? slice = some declarator ∧
      declarator.rest.fromOffset
          (Declarator.suffixEnd false none declarator.rest.start declarator.rest.cells) = after ∧
      ((after.startsWith '=' ∧ ∃ stop, (after.drop 1).find? 0x3B = some stop ∧
          declaration = ofDeclarator declarator (some ((after.drop 1).toOffset stop)) stop) ∨
        (after.startsWith ';' ∧ declaration = ofDeclarator declarator none after.start)) := by
  rw [read?, Option.bind_eq_some_iff] at h
  obtain ⟨declarator, hd, h⟩ := h
  refine ⟨declarator, _, hd, rfl, ?_⟩
  simp only at h
  split at h
  · next heq =>
    obtain ⟨stop, hf, he⟩ := Option.map_eq_some_iff.1 h
    exact .inl ⟨heq, stop, hf, he.symm⟩
  · obtain ⟨hsemi, he⟩ := Option.ite_none_right_eq_some.1 h
    exact .inr ⟨hsemi, (Option.some.inj he).symm⟩

theorem Declaration.read?_spec {declaration : Declaration} (h : read? slice = some declaration) :
    declaration.start = slice.start ∧ slice.start ≤ declaration.stop ∧
      declaration.stop < slice.stop ∧
      ∀ value ∈ declaration.initializer, IsPart value slice := by
  obtain ⟨declarator, after, hd, he, h⟩ := read?_eq_some h
  have hs := (Declarator.read?_spec hd).1
  have ha := Declarator.isTail_suffixed hd
  rw [he] at ha
  have hstart := ha.isPart.start_le
  have hstop := ha.isPart.stop_le
  rcases h with ⟨heq, stop, hf, rfl⟩ | ⟨hsemi, rfl⟩
  · have hv := Slice.isTail_drop_one heq
    have hvs := hv.isPart.start_le
    have hve := hv.isPart.stop_le
    obtain ⟨h1, h2⟩ := Slice.find?_bounds hf
    refine ⟨hs, ?_, ?_, ?_⟩
    · change slice.start ≤ stop
      omega
    · change stop < slice.stop
      omega
    · intro value hm
      cases hm
      exact (Slice.isPart_toOffset ..).trans (hv.trans ha).isPart
  · have hv := Slice.isTail_drop_one hsemi
    have hvs := Slice.start_le_stop (after.drop 1)
    have hve := hv.stop_eq
    have hd : (after.drop 1).start = after.start + 1 := rfl
    refine ⟨hs, hstart, ?_, fun value hm => by cases hm⟩
    change after.start < slice.stop
    omega

theorem Declaration.read?_declarator {declaration : Declaration}
    (h : read? slice = some declaration) : ∃ declarator initializer stop,
      Declarator.read? slice = some declarator ∧
        declaration = ofDeclarator declarator initializer stop := by
  obtain ⟨declarator, after, hd, _, ⟨_, stop, _, he⟩ | ⟨_, he⟩⟩ := read?_eq_some h
  · exact ⟨declarator, _, stop, hd, he⟩
  · exact ⟨declarator, none, _, hd, he⟩

theorem Declaration.read?_initializer {declaration : Declaration}
    (h : read? slice = some declaration) : ∀ value ∈ declaration.initializer, ∃ rest stop,
      IsTail rest slice ∧ rest.find? 0x3B = some stop ∧ value = rest.toOffset stop := by
  obtain ⟨declarator, after, hd, he, h⟩ := read?_eq_some h
  have ht := Declarator.isTail_suffixed hd
  rw [he] at ht
  intro value hm
  rcases h with ⟨heq, stop, hf, rfl⟩ | ⟨_, rfl⟩
  · cases hm
    exact ⟨_, stop, (Slice.isTail_drop_one heq).trans ht, hf, rfl⟩
  · cases hm

theorem FunctionDefinition.read?_spec {function : FunctionDefinition}
    (h : read? slice = some function) :
    function.start = slice.start ∧ slice.start ≤ function.opening ∧
      IsPart function.body slice ∧ function.opening < function.body.start ∧
      function.body.stop ≤ function.extent.last ∧ function.extent.last ≤ slice.stop := by
  rw [read?, Option.bind_eq_some_iff] at h
  obtain ⟨declarator, hd, h⟩ := h
  obtain ⟨_, _, hr, _⟩ := Declarator.read?_spec hd
  simp only at h
  split at h
  · rw [Option.bind_eq_some_iff] at h
    obtain ⟨⟨entries, after⟩, hb, h⟩ := h
    obtain ⟨_, ha, _, _⟩ := Slice.block?_spec hb
    have ht := (Slice.isTail_skipBlank after).trans
      (ha.trans ((Slice.isTail_skipSpace declarator.rest).trans hr))
    simp only at h
    generalize after.skipBlank = braced at h ht
    have hstart := ht.isPart.start_le
    split at h
    · next heq =>
      cases h
      simp only [extent]
      cases hc : braced.close? with
      | none =>
        have hblock : braced.block? = none := by rw [Slice.block?, hc]; rfl
        have hv := (Slice.isTail_drop_one heq).trans ht
        simp only [hblock, Option.getD_none]
        exact ⟨trivial, hstart, hv.isPart, Nat.lt_succ_self _, Nat.le_refl _, hv.isPart.stop_le⟩
      | some close =>
        obtain ⟨body, rest, hblock, hs⟩ : ∃ body rest, braced.block? = some (body, rest) ∧
            rest.start = close + 1 := by
          rw [Slice.block?, hc]
          exact ⟨_, _, rfl, rfl⟩
        obtain ⟨hp, _, hlt, hle⟩ := Slice.block?_spec hblock
        have hclose := (Slice.close?_bounds hc).2
        have hstop := ht.isPart.stop_le
        simp only [hblock, Option.getD_some]
        exact ⟨trivial, hstart, hp.trans ht.isPart, hlt, by omega, by omega⟩
    · cases h
  · cases h

theorem FunctionDefinition.read?_parts {function : FunctionDefinition}
    (h : read? slice = some function) : ∃ declarator entries after,
      Declarator.read? slice = some declarator ∧
      declarator.rest.skipSpace.startsWith '(' ∧
      declarator.rest.skipSpace.block? = some (entries, after) ∧
      after.skipBlank.startsWith '{' ∧
      function.returnType = Text.trim declarator.typeWords.text ∧
      function.parameters = Parameter.readList entries ∧
      function.opening = after.skipBlank.start := by
  rw [read?, Option.bind_eq_some_iff] at h
  obtain ⟨declarator, hd, h⟩ := h
  obtain ⟨hopen, h⟩ := Option.ite_none_right_eq_some.1 h
  obtain ⟨⟨entries, after⟩, hb, h⟩ := Option.bind_eq_some_iff.1 h
  obtain ⟨hbrace, he⟩ := Option.ite_none_right_eq_some.1 h
  cases he
  exact ⟨declarator, entries, after, hd, hopen, hb, hbrace, rfl, rfl, rfl⟩

theorem Slice.skipSpace_cons {position : Nat} {cell : Cell} {rest : List Cell}
    (h : cell.within CharClass.isSpace) :
    (Slice.mk position (cell :: rest)).skipSpace = (Slice.mk (position + 1) rest).skipSpace := by
  simp only [skipSpace, run, List.takeWhile_cons_of_pos h, drop, List.length_cons,
    List.drop_succ_cons, Slice.mk.injEq, and_true]
  omega

theorem Slice.isAscii_of_skipSpace {position : Nat} {cell : Cell} {rest : List Cell} {c : Char}
    (hs : ¬ cell.within CharClass.isSpace)
    (h : (Slice.mk position (cell :: rest)).skipSpace.startsWith c) : cell.isAscii c := by
  simp only [skipSpace, run, List.takeWhile_cons_of_neg hs] at h
  exact h

theorem Declarator.suffixEnd_of_parenthesis {position : Nat} {cells : List Cell}
    (hf : ∀ cell ∈ cells, cell.IsFaithful)
    (h : (Slice.mk position cells).skipSpace.startsWith '(') :
    suffixEnd false none position cells =
      position + (cells.takeWhile (Cell.within CharClass.isSpace)).length := by
  induction cells generalizing position with
  | nil => rfl
  | cons cell rest ih =>
    rw [suffixEnd.eq_def]
    simp only
    by_cases hs : cell.within CharClass.isSpace
    · have hb : cell.isAscii '[' = false := by
        rw [Bool.eq_false_iff]
        intro ha
        rw [Cell.within, hf cell List.mem_cons_self '[' (by decide) ha] at hs
        cases hs
      rw [Slice.skipSpace_cons hs] at h
      rw [hb, if_neg Bool.false_ne_true, if_pos hs, List.takeWhile_cons_of_pos hs,
        ih (fun cell hm => hf cell (List.mem_cons_of_mem _ hm)) h, List.length_cons]
      omega
    · have hp := Slice.isAscii_of_skipSpace hs h
      have hb : cell.isAscii '[' = false := by
        rw [Cell.isAscii, decide_eq_true_eq] at hp
        rw [Cell.isAscii, hp]
        rfl
      rw [hb, if_neg Bool.false_ne_true, if_neg hs, List.takeWhile_cons_of_neg hs]
      rfl

/-- No text begins both a declaration and a function definition. -/
theorem Declaration.read?_of_function (hf : ∀ cell ∈ slice.cells, cell.IsFaithful)
    (h : (FunctionDefinition.read? slice).isSome) : read? slice = none := by
  obtain ⟨function, h⟩ := Option.isSome_iff_exists.1 h
  rw [FunctionDefinition.read?, Option.bind_eq_some_iff] at h
  obtain ⟨declarator, hd, h⟩ := h
  simp only at h
  split at h
  · next hp =>
    obtain ⟨before, hc, _⟩ := (Declarator.read?_spec hd).2.2.1
    have hrest : ∀ cell ∈ declarator.rest.cells, cell.IsFaithful := by
      intro cell hm
      exact hf cell (by rw [hc]; exact List.mem_append_right _ hm)
    have ha : declarator.rest.fromOffset (Declarator.suffixEnd false none declarator.rest.start
        declarator.rest.cells) = declarator.rest.skipSpace := by
      rw [Declarator.suffixEnd_of_parenthesis hrest hp, Slice.skipSpace, Slice.fromOffset,
        Nat.add_sub_cancel_left]
      rfl
    have hne {c : Char} (hb : '('.val.toUInt8 ≠ c.val.toUInt8) :
        declarator.rest.skipSpace.startsWith c = false := by
      rw [Slice.startsWith] at hp ⊢
      cases hcells : declarator.rest.skipSpace.cells with
      | nil => rfl
      | cons cell others =>
        rw [hcells] at hp
        have he : cell.byte = '('.val.toUInt8 := of_decide_eq_true hp
        exact decide_eq_false (he ▸ hb)
    rw [read?, hd, Option.bind_some]
    simp only
    rw [ha, hne (by decide), hne (by decide)]
    rfl
  · cases h

end CodeOutline
