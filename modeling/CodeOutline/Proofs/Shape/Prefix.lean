import CodeOutline.Proofs.Delimiter.Piece
import CodeOutline.Proofs.Shape.Part
import CodeOutline.Proofs.Source.Mask

namespace CodeOutline

open Slice (IsPart IsTail)

namespace Slice

variable {start offset : Nat} {left right : List Cell}

theorem toOffset_append_of_le (h : offset ≤ start + left.length) :
    (Slice.mk start (left ++ right)).toOffset offset = (Slice.mk start left).toOffset offset := by
  rw [toOffset, toOffset, take, take, List.take_append_of_le_length (by simp only; omega)]

theorem fromOffset_append_of_le (h : offset ≤ start + left.length) :
    (Slice.mk start (left ++ right)).fromOffset offset =
      ⟨offset, ((Slice.mk start left).fromOffset offset).cells ++ right⟩ := by
  rw [fromOffset, fromOffset, List.drop_append_of_le_length (by simp only; omega)]

theorem IsPart.exists_fromOffset {part whole : Slice} (h : IsPart part whole) :
    ∃ right, whole.fromOffset part.start = ⟨part.start, part.cells ++ right⟩ := by
  obtain ⟨before, after, hc, hs⟩ := h
  obtain ⟨start, cells⟩ := whole
  simp only at hc hs
  exact ⟨after, by rw [hc, hs, fromOffset_append]⟩

theorem span_between? {whole part : Slice} {stop : Nat}
    (h : whole.between? start stop = some part) : part.start = start ∧ part.stop = stop := by
  obtain ⟨⟨hs, hle, hstop, _⟩, he⟩ := Option.ite_none_right_eq_some.1 h
  cases he
  have htail := isTail_toOffset hs hle hstop
  exact ⟨rfl, htail.stop_eq.trans (stop_toOffset (Nat.le_trans hs hle) hstop)⟩

theorem exists_of_startsWith {slice : Slice} {c : Char} (h : slice.startsWith c) :
    ∃ cell rest, slice = ⟨slice.start, cell :: rest⟩ ∧ cell.isAscii c := by
  rw [startsWith, Option.any_eq_true] at h
  obtain ⟨cell, hm, hc⟩ := h
  obtain ⟨rest, hcells⟩ := List.head?_eq_some_iff.1 hm
  exact ⟨cell, rest, by rw [← hcells], hc⟩

theorem stands_start {slice : Slice} {c : Char} (h : slice.startsWith c) :
    Delimiter.Stands c.val.toUInt8 slice.start slice.start slice.cells := by
  obtain ⟨cell, rest, he, hc⟩ := exists_of_startsWith h
  rw [he]
  exact .head (of_decide_eq_true hc)

end Slice

namespace Delimiter

theorem Stands.getElem? {byte : UInt8} {found : Nat} {cells : List Cell}
    (h : Stands byte 0 found cells) : cells[found]?.map Cell.byte = some byte := by
  obtain ⟨left, cell, right, rfl, rfl, rfl⟩ := h
  rw [Nat.zero_add, List.getElem?_append_right (Nat.le_refl _), Nat.sub_self]
  rfl

variable {terminator : UInt8} {depth position found : Nat} {left right : List Cell}

theorem findFrom_append (h : findFrom terminator depth position left = some found)
    (right : List Cell) : findFrom terminator depth position (left ++ right) = some found := by
  induction left generalizing depth position with
  | nil => cases h
  | cons cell rest ih =>
    rw [findFrom.eq_def] at h
    rw [List.cons_append, findFrom.eq_def]
    simp only at h ⊢
    split
    · next ho =>
      rw [if_pos ho] at h
      exact ih h
    · next ho =>
      rw [if_neg ho] at h
      split
      · next hc =>
        rw [if_pos hc] at h
        cases depth with
        | zero => cases h
        | succ pending => exact ih h
      · next hc =>
        rw [if_neg hc] at h
        split
        · next ht =>
          rw [if_pos ht] at h
          exact h
        · next ht =>
          rw [if_neg ht] at h
          exact ih h

end Delimiter

namespace Declarator

variable {left right : List Cell} {start : Nat} {declarator : Declarator}

/-- A run of words that does not reach the end of a text is the same in a longer one. -/
theorem readWords_append (count start : Nat) (stop : Option Nat) (position : Nat)
    (left right : List Cell) :
    readWords count start stop position (left ++ right) =
        readWords count start stop position left ∨
      ∀ cell ∈ left, cell.within isPhraseChar := by
  induction left generalizing count start stop position with
  | nil => exact .inr fun cell hm => absurd hm List.not_mem_nil
  | cons first rest ih =>
    cases stop with
    | none =>
      simp only [List.cons_append, readWords]
      split
      · next hw =>
        exact (ih ..).imp_right fun hr => List.forall_mem_cons.2 ⟨within_phrase_of_word hw, hr⟩
      · split
        · next hs =>
          exact (ih ..).imp_right fun hr => List.forall_mem_cons.2
            ⟨within_phrase_of_separator (Cell.within_of_begins hs), hr⟩
        · exact .inl rfl
    | some stop =>
      simp only [List.cons_append, readWords]
      split
      · next hs =>
        exact (ih ..).imp_right fun hr =>
          List.forall_mem_cons.2 ⟨within_phrase_of_separator hs, hr⟩
      · split
        · next hw =>
          exact (ih ..).imp_right fun hr =>
            List.forall_mem_cons.2 ⟨within_phrase_of_begins hw, hr⟩
        · exact .inl rfl

/-- A declarator that does not reach the end of a text, and the lack of one, are the same in a longer
text. -/
theorem read?_append_eq (hb : ∃ cell ∈ left, cell.within isPhraseChar = false)
    (right : List Cell) :
    read? ⟨start, left ++ right⟩ = (read? ⟨start, left⟩).map fun declarator =>
      { declarator with rest := ⟨declarator.rest.start, declarator.rest.cells ++ right⟩ } := by
  obtain ⟨stopping, hm, hn⟩ := hb
  cases left with
  | nil => cases hm
  | cons first rest =>
    by_cases hf : first.begins CharClass.isWordStart
    · have hsame : readWords 1 start none (start + 1) (rest ++ right) =
          readWords 1 start none (start + 1) rest := by
        refine (readWords_append ..).resolve_right fun hr => ?_
        have hall : ∀ cell ∈ first :: rest, cell.within isPhraseChar :=
          List.forall_mem_cons.2 ⟨within_phrase_of_begins hf, hr⟩
        exact absurd (hn.symm.trans (hall stopping hm)) Bool.false_ne_true
      obtain ⟨hle, hlt, hbound⟩ := readWords_bounds 1 start none (start + 1) rest
        (Nat.lt_succ_self _) (Nat.le_refl _)
      simp only [read?, List.cons_append, hf, if_true, hsame]
      generalize readWords 1 start none (start + 1) rest = words at hle hlt hbound ⊢
      obtain ⟨count, begun, stop⟩ := words
      simp only at hle hlt hbound
      have hstop : stop ≤ start + (first :: rest).length := by
        rw [List.length_cons]
        omega
      have hbegun : begun ≤ start + (first :: rest).length := by omega
      have hname : ((Slice.mk start (first :: (rest ++ right))).fromOffset begun).toOffset stop =
          ((Slice.mk start (first :: rest)).fromOffset begun).toOffset stop := by
        rw [← List.cons_append, Slice.fromOffset_append_of_le hbegun]
        refine Slice.toOffset_append_of_le ?_
        simp only [Slice.fromOffset, List.length_drop]
        omega
      have htype : (Slice.mk start (first :: (rest ++ right))).toOffset begun =
          (Slice.mk start (first :: rest)).toOffset begun :=
        Slice.toOffset_append_of_le hbegun
      have hrest : (Slice.mk start (first :: (rest ++ right))).fromOffset stop =
          ⟨stop, ((Slice.mk start (first :: rest)).fromOffset stop).cells ++ right⟩ :=
        Slice.fromOffset_append_of_le hstop
      simp only [hname, htype, hrest]
      split <;> rfl
    · simp only [read?, List.cons_append, hf]
      rfl

theorem read?_append (h : read? ⟨start, left⟩ = some declarator)
    (hb : ∃ cell ∈ left, cell.within isPhraseChar = false) (right : List Cell) :
    read? ⟨start, left ++ right⟩ =
      some { declarator with rest := ⟨declarator.rest.start, declarator.rest.cells ++ right⟩ } := by
  rw [read?_append_eq hb, h]
  rfl

theorem suffixEnd_some (multiline : Bool) (start position : Nat) (cells : List Cell) :
    suffixEnd multiline (some start) position cells = start ∨
      position < suffixEnd multiline (some start) position cells := by
  induction cells generalizing position with
  | nil => exact .inl rfl
  | cons cell rest ih =>
    simp only [suffixEnd]
    split
    · have := (suffixEnd_bounds multiline none (position + 1) rest (Nat.le_refl _)).1
      exact .inr this
    · split
      · exact .inl rfl
      · exact (ih (position + 1)).imp_right Nat.lt_of_succ_lt

/-- Suffixes that end before a cell that opens none are the same in a longer text. -/
theorem suffixEnd_append {multiline : Bool} {opened : Option Nat} {position : Nat}
    (ho : ∀ start ∈ opened, start < position) {cell : Cell}
    (hle : position ≤ suffixEnd multiline opened position left)
    (hc : left[suffixEnd multiline opened position left - position]? = some cell)
    (hn : cell.isAscii '[' = false) (right : List Cell) :
    suffixEnd multiline opened position (left ++ right) =
      suffixEnd multiline opened position left := by
  induction left generalizing opened position with
  | nil => cases hc
  | cons first rest ih =>
    have hrest {next : Nat} (hlt : position < next)
        (hg : (first :: rest)[next - position]? = some cell) :
        rest[next - (position + 1)]? = some cell := by
      rwa [List.getElem?_cons, if_neg (by omega), Nat.sub_sub] at hg
    cases opened with
    | none =>
      simp only [List.cons_append, suffixEnd] at hle hc ⊢
      split at hc
      · next hb =>
        rw [if_pos hb] at hle ⊢
        rw [if_pos hb]
        rcases suffixEnd_some multiline position (position + 1) rest with he | hlt
        · rw [he, Nat.sub_self, List.getElem?_cons_zero] at hc
          cases hc
          exact absurd (hn.symm.trans hb) Bool.false_ne_true
        · exact ih (fun start hs => by cases hs; exact Nat.lt_succ_self _) (Nat.le_of_lt hlt)
            (hrest (by omega) hc)
      · next hb =>
        rw [if_neg hb] at hle ⊢
        rw [if_neg hb]
        split at hc
        · next hs =>
          rw [if_pos hs] at hle ⊢
          rw [if_pos hs]
          have hlt := (suffixEnd_bounds multiline none (position + 1) rest (Nat.le_refl _)).1
          exact ih (fun start hs => by cases hs) hlt (hrest hlt hc)
        · next hs => rw [if_neg hs, if_neg hs]
    | some start =>
      have hstart := ho start rfl
      simp only [List.cons_append, suffixEnd] at hle hc ⊢
      split at hc
      · next hb =>
        rw [if_pos hb] at hle ⊢
        rw [if_pos hb]
        have hlt := (suffixEnd_bounds multiline none (position + 1) rest (Nat.le_refl _)).1
        exact ih (fun start hs => by cases hs) hlt (hrest hlt hc)
      · next hb =>
        rw [if_neg hb] at hle ⊢
        rw [if_neg hb]
        split at hc
        · next hl =>
          rw [if_pos hl] at hle
          omega
        · next hl =>
          rw [if_neg hl] at hle ⊢
          rw [if_neg hl]
          rcases suffixEnd_some multiline start (position + 1) rest with he | hlt
          · omega
          · exact ih (fun start hs => by cases hs; omega) (Nat.le_of_lt hlt)
              (hrest (by omega) hc)

theorem fromOffset_suffixEnd_append {rest : Slice} {position : Nat} {cell : Cell} {more : List Cell}
    (h : rest.fromOffset (suffixEnd false none rest.start rest.cells) = ⟨position, cell :: more⟩)
    (hn : cell.isAscii '[' = false) (right : List Cell) :
    (Slice.mk rest.start (rest.cells ++ right)).fromOffset
        (suffixEnd false none rest.start (rest.cells ++ right)) =
      ⟨position, cell :: (more ++ right)⟩ := by
  obtain ⟨hle, hstop⟩ := suffixEnd_bounds false none rest.start rest.cells (Nat.le_refl _)
  have hdrop := congrArg Slice.cells h
  simp only [Slice.fromOffset] at hdrop
  have hget : rest.cells[suffixEnd false none rest.start rest.cells - rest.start]? = some cell := by
    rw [← List.head?_drop, hdrop]
    rfl
  have hnone : ∀ start ∈ (none : Option Nat), start < rest.start := fun _ hs => by cases hs
  have hstart : suffixEnd false none rest.start rest.cells = position := congrArg Slice.start h
  rw [suffixEnd_append hnone hle hget hn right, Slice.fromOffset_append_of_le hstop, h, hstart]
  rfl

end Declarator

namespace Declaration

variable {start : Nat} {left : List Cell} {part whole : Slice} {declaration : Declaration}

theorem read?_mark {slice : Slice} (h : read? slice = some declaration) :
    ∃ declarator position cell more, Declarator.read? slice = some declarator ∧
      declarator.rest.fromOffset
          (Declarator.suffixEnd false none declarator.rest.start declarator.rest.cells) =
        ⟨position, cell :: more⟩ ∧ (cell.isAscii '=' ∨ cell.isAscii ';') := by
  obtain ⟨declarator, after, hd, he, h⟩ := read?_eq_some h
  rcases h with ⟨hmark, _⟩ | ⟨hmark, _⟩
  · obtain ⟨cell, more, hcells, hc⟩ := Slice.exists_of_startsWith hmark
    exact ⟨declarator, after.start, cell, more, hd, he.trans hcells, .inl hc⟩
  · obtain ⟨cell, more, hcells, hc⟩ := Slice.exists_of_startsWith hmark
    exact ⟨declarator, after.start, cell, more, hd, he.trans hcells, .inr hc⟩

theorem read?_append (hf : ∀ cell ∈ left, cell.IsFaithful)
    (h : read? ⟨start, left⟩ = some declaration) (right : List Cell) :
    read? ⟨start, left ++ right⟩ = some declaration := by
  obtain ⟨declarator, position, cell, more, hd, ha, hc⟩ := read?_mark h
  have hm : cell ∈ left := by
    apply (Declarator.read?_spec hd).2.2.1.isPart.subset
    apply List.mem_of_mem_drop
    rw [show declarator.rest.cells.drop _ = cell :: more from congrArg Slice.cells ha]
    exact List.mem_cons_self
  have hphrase : cell.within Declarator.isPhraseChar = false := by
    rcases hc with hc | hc
    · rw [Cell.within, hf cell hm '=' (by decide) hc]
      rfl
    · rw [Cell.within, hf cell hm ';' (by decide) hc]
      rfl
  have hsuffix : cell.isAscii '[' = false := by
    simp only [Cell.isAscii, decide_eq_true_eq] at hc ⊢
    rcases hc with hc | hc <;> rw [hc] <;> rfl
  have happend := Declarator.fromOffset_suffixEnd_append ha hsuffix right
  rw [read?, hd, Option.bind_some] at h
  rw [read?, Declarator.read?_append hd ⟨cell, hm, hphrase⟩ right, Option.bind_some]
  simp only at h ⊢
  rw [ha] at h
  rw [happend]
  have hstarts (c : Char) : (Slice.mk position (cell :: (more ++ right))).startsWith c =
      (Slice.mk position (cell :: more)).startsWith c := rfl
  rw [hstarts, hstarts]
  split at h
  · next heq =>
    rw [if_pos heq]
    obtain ⟨stop, hfind, he⟩ := Option.map_eq_some_iff.1 h
    have hle : stop ≤ position + 1 + more.length := Nat.le_of_lt (Slice.find?_bounds hfind).2
    have hlonger : ((Slice.mk position (cell :: (more ++ right))).drop 1).find? 0x3B = some stop :=
      Delimiter.findFrom_append hfind right
    have hvalue : ((Slice.mk position (cell :: (more ++ right))).drop 1).toOffset stop =
        ((Slice.mk position (cell :: more)).drop 1).toOffset stop :=
      Slice.toOffset_append_of_le hle
    rw [hlonger, Option.map_some, hvalue, ← he]
    rfl
  · next heq =>
    rw [if_neg heq]
    exact h

theorem read?_of_isPart (hf : ∀ cell ∈ part.cells, cell.IsFaithful) (hp : IsPart part whole)
    (h : read? part = some declaration) :
    read? (whole.fromOffset part.start) = some declaration := by
  obtain ⟨right, he⟩ := hp.exists_fromOffset
  rw [he]
  exact read?_append hf h right

open Delimiter (Shelters Stands)

/-- The name of a declaration stands before its semicolon, and an initializer goes up to it with all
its brackets closed. -/
theorem read?_stop {slice : Slice} (h : read? slice = some declaration) :
    Stands 0x3B slice.start declaration.stop slice.cells ∧
      slice.start ≤ declaration.nameOffset ∧ declaration.nameOffset < declaration.stop ∧
      ∀ value ∈ declaration.initializer,
        value.stop = declaration.stop ∧ Shelters 0x3B 0 value.cells := by
  obtain ⟨declarator, after, hd, he, h⟩ := read?_eq_some h
  have htail := Declarator.isTail_suffixed hd
  have hname := (Declarator.read?_spec hd).2.1.start_le
  have hlt := (Declarator.read?_within hd).1
  have hsuffixes := (Declarator.suffixEnd_bounds false none declarator.rest.start
    declarator.rest.cells (Nat.le_refl _)).1
  have hafter : declarator.rest.start ≤ after.start := by
    rw [← he]
    exact hsuffixes
  rw [he] at htail
  rcases h with ⟨heq, stop, hf, rfl⟩ | ⟨hsemi, rfl⟩
  · have hvalue := (Slice.isTail_drop_one heq).trans htail
    obtain ⟨left, cell, right, hc, hb, rfl, hshelters⟩ := Delimiter.exists_of_findFrom (by decide) hf
    refine ⟨Stands.of_isPart ⟨left, cell, right, hc, hb, rfl⟩ hvalue.isPart, hname, ?_, ?_⟩
    · change declarator.name.start < after.start + 1 + left.length
      omega
    · intro value hm
      cases hm
      have hcells : (after.drop 1).toOffset (after.start + 1 + left.length) =
          ⟨after.start + 1, left⟩ := by
        have := Slice.toOffset_append (after.start + 1) left (cell :: right)
        rw [← hc] at this
        exact this
      change ((after.drop 1).toOffset (after.start + 1 + left.length)).stop = _ ∧
        Shelters 0x3B 0 ((after.drop 1).toOffset (after.start + 1 + left.length)).cells
      rw [hcells]
      exact ⟨rfl, hshelters⟩
  · refine ⟨Stands.of_isPart (Slice.stands_start hsemi) htail.isPart, hname, ?_, fun value hm => ?_⟩
    · change declarator.name.start < after.start
      omega
    · cases hm

/-- A declaration that is read up to one limit is read up to every later one. It ends before the
limit, at the first semicolon behind the equals sign that is outside brackets. -/
theorem read?_between? {text : String} {start limit limit' : Nat}
    (hpart : (Source.ofString text).view.between? start limit = some part)
    (hwhole : (Source.ofString text).view.between? start limit' = some whole)
    (hle : limit ≤ limit') (h : read? part = some declaration) :
    read? whole = some declaration ∧ declaration.stop < limit ∧
      (Source.ofString text).masked[declaration.stop]?.map Cell.byte = some 0x3B ∧
      start ≤ declaration.nameOffset ∧ declaration.nameOffset < declaration.stop ∧
      ∀ value ∈ declaration.initializer, IsPart value (Source.ofString text).view ∧
        value.stop = declaration.stop ∧ Shelters 0x3B 0 value.cells := by
  have hview := Slice.isPart_between? hpart
  obtain ⟨hstart, hstop⟩ := Slice.span_between? hpart
  obtain ⟨hstart', hstop'⟩ := Slice.span_between? hwhole
  have hlonger : IsPart part whole :=
    hview.of_le (Slice.isPart_between? hwhole) (by omega) (by omega)
  have hfaithful : ∀ cell ∈ part.cells, cell.IsFaithful :=
    fun cell hm => Source.isFaithful_view text cell (hview.subset hm)
  have hwide := read?_of_isPart hfaithful hlonger h
  rw [hstart, ← hstart', Slice.fromOffset_start] at hwide
  obtain ⟨_, _, hbound, hvalues⟩ := read?_spec h
  obtain ⟨hstands, hfrom, hname, hvalue⟩ := read?_stop h
  refine ⟨hwide, by omega, (hstands.of_isPart hview).getElem?, by omega, hname, ?_⟩
  intro value hm
  exact ⟨(hvalues value hm).trans hview, hvalue value hm⟩

/-- The semicolon in braces belongs to the initializer, read up to the one behind it or further. -/
theorem read?_between?_braces :
    ∃ part ∈ (Source.ofString "x(); int n = f(\x7ba; b\x7d); y();").view.between? 5 23,
      ∃ whole ∈ (Source.ofString "x(); int n = f(\x7ba; b\x7d); y();").view.between? 5 28,
        ∃ declaration ∈ read? part, read? whole = some declaration ∧ declaration.stop < 23 ∧
          ∃ value ∈ declaration.initializer, Shelters 0x3B 0 value.cells := by
  have h : ∃ part ∈ (Source.ofString "x(); int n = f(\x7ba; b\x7d); y();").view.between? 5 23,
      ∃ whole ∈ (Source.ofString "x(); int n = f(\x7ba; b\x7d); y();").view.between? 5 28,
        ∃ declaration ∈ read? part, declaration.initializer.isSome := by
    decide +kernel
  obtain ⟨part, hpart, whole, hwhole, declaration, hd, hinitializer⟩ := h
  obtain ⟨value, hv⟩ := Option.isSome_iff_exists.1 hinitializer
  obtain ⟨hwide, hstop, _, _, _, hvalues⟩ := read?_between? hpart hwhole (by decide) hd
  exact ⟨part, hpart, whole, hwhole, declaration, hd, hwide, hstop, value, hv, (hvalues value hv).2.2⟩

end Declaration

end CodeOutline
