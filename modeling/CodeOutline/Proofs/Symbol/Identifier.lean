import CodeOutline.Proofs.Outline.Agreement
import CodeOutline.Proofs.Source.Word
import CodeOutline.Proofs.Symbol.Address

namespace CodeOutline

open Slice (IsPart IsTail BreaksAt IsIdentifier)

namespace Declarator

variable {slice : Slice} {declarator : Declarator} {position : Nat}

/-- What stands at an offset behind a position of a text. -/
def Reaches (test : List Cell → Prop) (position offset : Nat) (cells : List Cell) : Prop :=
  ∃ rest, IsTail ⟨offset, rest⟩ ⟨position, cells⟩ ∧ test rest

variable {test : List Cell → Prop} {offset : Nat} {cell : Cell} {cells rest : List Cell}

theorem Reaches.here (h : test cells) : Reaches test position position cells :=
  ⟨cells, IsTail.refl _, h⟩

theorem Reaches.later (h : Reaches test (position + 1) offset rest) :
    Reaches test position offset (cell :: rest) := by
  obtain ⟨found, ht, h⟩ := h
  exact ⟨found, ht.trans (Slice.isTail_cons ..), h⟩

/-- No word goes on in the cells. -/
def IsBroken (cells : List Cell) : Prop :=
  ∀ cell ∈ cells.head?, cell.within CharClass.isWord = false

theorem isBroken_cons (h : ¬ cell.within CharClass.isWord) : IsBroken (cell :: rest) := by
  intro other ho
  cases ho
  exact Bool.eq_false_iff.2 h

def BeginsName (cells : List Cell) : Prop :=
  cells.head?.any (Cell.begins CharClass.isWordStart)

/-- The last word of a run begins with a letter, unless it is the word that was begun before; the run
stops where no word goes on, unless it stops where it had stopped before. -/
theorem readWords_reaches (count start : Nat) (stop : Option Nat) (position : Nat)
    (cells : List Cell) :
    ((readWords count start stop position cells).2.1 = start ∨
      Reaches BeginsName position (readWords count start stop position cells).2.1 cells) ∧
    (stop = some (readWords count start stop position cells).2.2 ∨
      Reaches IsBroken position (readWords count start stop position cells).2.2 cells) := by
  fun_induction readWords count start stop position cells with
  | case1 count start stop position =>
    refine ⟨.inl rfl, ?_⟩
    cases stop with
    | none => exact .inr (.here fun cell hm => by cases hm)
    | some stop => exact .inl rfl
  | case2 count start position cell rest hw ih =>
    exact ⟨ih.1.imp_right .later, .inr (ih.2.resolve_left (by simp)).later⟩
  | case3 count start position cell rest hw hs ih =>
    refine ⟨ih.1.imp_right .later, .inr ?_⟩
    rcases ih.2 with he | hr
    · rw [← Option.some.inj he]
      exact .here (isBroken_cons hw)
    · exact hr.later
  | case4 count start position cell rest hw hs => exact ⟨.inl rfl, .inr (.here (isBroken_cons hw))⟩
  | case5 count start position cell rest stop hs ih =>
    exact ⟨ih.1.imp_right .later, ih.2.imp_right .later⟩
  | case6 count start position cell rest stop hs hw ih =>
    refine ⟨.inr ?_, .inr (ih.2.resolve_left (by simp)).later⟩
    rcases ih.1 with he | hr
    · rw [he]
      exact .here hw
    · exact hr.later
  | case7 => exact ⟨.inl rfl, .inl rfl⟩

/-- The name of a declarator begins with a letter, and what is left begins with no word. -/
theorem read?_reaches (h : read? slice = some declarator) :
    Reaches BeginsName slice.start declarator.name.start slice.cells ∧
      Reaches IsBroken slice.start declarator.rest.start slice.cells := by
  obtain ⟨first, others, count, start, stop, hc, hb, hw, _, rfl⟩ := read?_eq_some h
  have hreaches := readWords_reaches 1 slice.start none (slice.start + 1) others
  simp only [hw] at hreaches
  change Reaches BeginsName slice.start start slice.cells ∧
    Reaches IsBroken slice.start stop slice.cells
  rw [hc]
  refine ⟨?_, (hreaches.2.resolve_left (by simp)).later⟩
  rcases hreaches.1 with he | hr
  · rw [he]
    exact .here hb
  · exact hr.later

theorem stop_name (h : read? slice = some declarator) :
    declarator.name.stop = declarator.rest.start := by
  obtain ⟨first, others, count, start, stop, hc, _, hw, _, rfl⟩ := read?_eq_some h
  obtain ⟨hle, hlt, hstop⟩ := readWords_bounds 1 slice.start none (slice.start + 1) others
    (Nat.lt_succ_self _) (Nat.le_refl _)
  simp only [hw] at hle hlt hstop
  have hlength : slice.stop = slice.start + 1 + others.length := by
    rw [Slice.stop, hc, List.length_cons]
    omega
  have hfrom := (Slice.isTail_fromOffset hle (show start ≤ slice.stop by omega)).stop_eq
  change start + ((slice.fromOffset start).toOffset stop).cells.length = stop
  rw [Slice.length_toOffset (by omega)]
  exact Nat.add_sub_cancel' (Nat.le_of_lt hlt)

theorem isIdentifier_name (h : read? slice = some declarator) (hr : declarator.rest.cells ≠ []) :
    declarator.name.IsIdentifier slice := by
  obtain ⟨⟨word, htail, hletter⟩, ⟨left, hrest, hbroken⟩⟩ := read?_reaches h
  have hword := isWordOf_name h
  have hstop := stop_name h
  refine ⟨hword.part, ?_, hword.within, ?_⟩
  · have hpart : IsPart declarator.name ⟨declarator.name.start, word⟩ :=
      hword.part.of_le htail.isPart (Nat.le_refl _) (htail.stop_eq ▸ hword.part.stop_le)
    obtain ⟨after, hc⟩ := hpart.eq_append
    have hne : declarator.name.cells ≠ [] := by
      have hlt := (read?_within h).1
      rw [← hstop, Slice.stop] at hlt
      exact List.ne_nil_of_length_pos (by omega)
    rwa [BeginsName, hc, List.head?_append_of_ne_nil _ hne] at hletter
  · have hleft := (read?_spec h).2.2.1.eq hrest rfl
    rw [hleft] at hr
    obtain ⟨cell, rest, rfl⟩ := List.exists_cons_of_ne_nil hr
    rw [hstop]
    exact ⟨cell, rest, hrest, hbroken cell rfl⟩

end Declarator

variable {slice text piece list inner after : Slice}

theorem Slice.ne_nil_of_startsWith {tail : Slice} {c : Char} (ht : IsTail tail slice)
    (h : tail.startsWith c) : slice.cells ≠ [] := by
  intro hc
  have hle := ht.isPart.length_le
  rw [hc, List.length_nil, Nat.le_zero, List.length_eq_zero_iff] at hle
  rw [startsWith, hle] at h
  cases h

theorem Declaration.isIdentifier_name {declaration : Declaration}
    (h : read? slice = some declaration) : ∃ name, IsIdentifier name slice ∧
      declaration.name = name.text ∧ declaration.nameOffset = name.start := by
  obtain ⟨declarator, _, _, hd, rfl⟩ := read?_declarator h
  refine ⟨declarator.name, Declarator.isIdentifier_name hd ?_, rfl, rfl⟩
  have hb := Declarator.suffixEnd_bounds false none declarator.rest.start declarator.rest.cells
    (Nat.le_refl _)
  have ht := Slice.isTail_fromOffset hb.1 hb.2
  rw [read?, hd, Option.bind_some] at h
  simp only at h
  split at h
  · next hs => exact Slice.ne_nil_of_startsWith ht hs
  · obtain ⟨hs, _⟩ := Option.ite_none_right_eq_some.1 h
    exact Slice.ne_nil_of_startsWith ht hs

theorem FunctionDefinition.isIdentifier_name {function : FunctionDefinition}
    (h : read? slice = some function) : ∃ name, IsIdentifier name slice ∧
      function.name = name.text ∧ function.nameOffset = name.start := by
  obtain ⟨declarator, _, _, hd, hname, hoffset, _⟩ := read?_opening h
  refine ⟨declarator.name, Declarator.isIdentifier_name hd ?_, hname, hoffset⟩
  obtain ⟨declarator', _, _, hd', hs, _⟩ := read?_parts h
  cases hd.symm.trans hd'
  exact Slice.ne_nil_of_startsWith (Slice.isTail_skipSpace _) hs

namespace Slice

theorem exists_trim (slice : Slice) : ∃ blanks, slice.skipBlank.cells = slice.trim.cells ++ blanks ∧
    ∀ cell ∈ blanks, cell.isBlank := by
  have hsplit := List.takeWhile_append_dropWhile (p := Cell.isBlank)
    (l := slice.skipBlank.cells.reverse)
  refine ⟨(slice.skipBlank.cells.reverse.takeWhile Cell.isBlank).reverse, ?_, fun cell hm => ?_⟩
  · rw [trim, ← List.reverse_append, hsplit, List.reverse_reverse]
  · exact List.mem_takeWhile_imp (List.mem_reverse.1 hm)

section

variable (hf : ∀ cell ∈ text.cells, cell.IsFaithful)
include hf

theorem breaksAt_trim (hp : IsPart piece text) (hb : text.BreaksAt piece.stop) :
    text.BreaksAt piece.trim.stop := by
  obtain ⟨blanks, hc, hblank⟩ := exists_trim piece
  have htail := isTail_skipBlank piece
  cases blanks with
  | nil =>
    rw [List.append_nil] at hc
    have hstop : piece.trim.stop = piece.stop := by
      rw [← htail.stop_eq, Slice.stop, ← hc]
      rfl
    rwa [hstop]
  | cons cell blanks =>
    have hpiece : piece.BreaksAt piece.trim.stop := by
      have hm : cell ∈ piece.skipBlank.cells :=
        hc ▸ List.mem_append_right _ List.mem_cons_self
      have hfaithful := hf cell (hp.subset (htail.isPart.subset hm))
      exact ⟨cell, blanks, IsTail.trans ⟨piece.trim.cells, hc, rfl⟩ htail,
        hfaithful.not_isWord_of_isBlank (hblank cell List.mem_cons_self)⟩
    exact hpiece.of_isPart hp

/-- A piece ends at a comma, or where the list ends. -/
theorem breaksAt_split (hp : IsPart list text) (hb : text.BreaksAt list.stop)
    (hm : piece ∈ list.split 0x2C) : text.BreaksAt piece.stop := by
  rcases stop_of_mem_split hm with ⟨left, comma, right, hc, hbyte, hs⟩ | hstop
  · have hlist : list.BreaksAt piece.stop := by
      have hcomma : comma ∈ list.cells := hc ▸ List.mem_append_right _ List.mem_cons_self
      exact ⟨comma, right, ⟨left, hc, hs⟩,
        (hf comma (hp.subset hcomma)).not_within (c := ',') hbyte (by decide) (by decide)⟩
    exact hlist.of_isPart hp
  · exact hstop ▸ hb

theorem breaksAt_block (hp : IsPart slice text) (h : slice.block? = some (inner, after)) :
    text.BreaksAt inner.stop := by
  obtain ⟨close, hc, _⟩ := Option.map_eq_some_iff.1 h
  obtain ⟨opening, cells, closing, rest, hs, ho, rfl⟩ := close?_spec hc
  rw [hs] at h hc hp
  rw [block?_eq hc] at h
  cases h
  have hfaithful := hf closing (hp.subset (by simp))
  refine BreaksAt.of_isPart ⟨closing, rest, ⟨opening :: cells, rfl, ?_⟩,
    hfaithful.not_isWord_of_closerOf ho⟩ hp
  simp only [stop_mk, List.length_cons]
  omega

end

end Slice

namespace Parameter

variable {parameter : Parameter} {name : Slice}

theorem name?_word {position : Nat} {cells : List Cell} (h : name? position cells = some name) :
    ∃ first word rest, IsTail ⟨name.start, first :: (word ++ rest)⟩ ⟨position, cells⟩ ∧
      name.cells = first :: word ∧ first.begins CharClass.isWordStart ∧
      ∀ cell ∈ rest.head?, cell.within CharClass.isWord = false := by
  induction cells generalizing position with
  | nil => cases h
  | cons cell cells ih =>
    have hlater (h : name? (position + 1) cells = some name) :
        ∃ first word rest, IsTail ⟨name.start, first :: (word ++ rest)⟩ ⟨position, cell :: cells⟩ ∧
          name.cells = first :: word ∧ first.begins CharClass.isWordStart ∧
          ∀ cell ∈ rest.head?, cell.within CharClass.isWord = false := by
      obtain ⟨first, word, rest, ht, hspec⟩ := ih h
      exact ⟨first, word, rest, ht.trans (Slice.isTail_cons ..), hspec⟩
    rw [name?] at h
    split at h
    · next hw =>
      split at h
      · cases h
        obtain ⟨first, word, rest, hc, rfl, _, hb, _, hr⟩ := Slice.word?_append hw
        exact ⟨first, word, rest, ⟨[], hc, rfl⟩, rfl, hb, hr⟩
      · exact hlater h
    · exact hlater h

theorem isIdentifier_name? {entry : Slice} (h : name? entry.start entry.cells = some name)
    (hp : IsPart entry text) (hb : text.BreaksAt entry.stop) : name.IsIdentifier text := by
  obtain ⟨first, word, rest, ht, hc, hletter, hbroken⟩ := name?_word h
  have hword := (isWordOf_name? h).of_isPart hp
  refine ⟨hword.part, ?_, hword.within, ?_⟩
  · rw [hc]
    exact hletter
  · have hrest : IsTail ⟨name.stop, rest⟩ ⟨name.start, first :: (word ++ rest)⟩ :=
      ⟨name.cells, by rw [hc, List.cons_append], rfl⟩
    have htail : IsTail ⟨name.stop, rest⟩ entry := hrest.trans ht
    cases rest with
    | nil =>
      have hstop : name.stop = entry.stop := htail.stop_eq
      rwa [hstop]
    | cons cell rest => exact BreaksAt.of_isPart ⟨cell, rest, htail, hbroken cell rfl⟩ hp

/-- An entry of a list, at its place there, that declares a parameter without an identifier. -/
structure IsUnnamed (list : Slice) (index : Nat) (piece : Slice) : Prop where
  entry : (list.split 0x2C)[index]? = some piece
  declares : isVacant piece.trim = false
  name : name? piece.trim.start piece.trim.cells = none

theorem isIdentifier_of_mem_readList (hf : ∀ cell ∈ text.cells, cell.IsFaithful)
    (hp : IsPart list text) (hb : text.BreaksAt list.stop) (h : parameter ∈ readList list) :
    (∃ name, IsIdentifier name text ∧ parameter.name = name.text ∧
      parameter.offset = name.start) ∨
    ∃ index piece, IsUnnamed list index piece ∧ parameter.name = s!"param{index}" ∧
      parameter.offset = piece.trim.start := by
  rw [readList, List.mem_filterMap] at h
  obtain ⟨⟨entry, index⟩, hm, h⟩ := h
  obtain ⟨hvacant, he⟩ := Option.ite_none_left_eq_some.1 h
  cases he
  have hentry := List.mem_zipIdx_iff_getElem?.1 hm
  rw [List.getElem?_map, Option.map_eq_some_iff] at hentry
  obtain ⟨piece, hget, rfl⟩ := hentry
  have hpiece := List.mem_of_getElem? hget
  have hpart := (Slice.isPart_split hpiece).trans hp
  have hbreak := Slice.breaksAt_trim hf hpart (Slice.breaksAt_split hf hp hb hpiece)
  rw [ofEntry]
  cases hn : name? piece.trim.start piece.trim.cells with
  | some name =>
    have hname := isIdentifier_name? hn ((Slice.isPart_trim piece).trans hpart) hbreak
    exact .inl ⟨name, hname, rfl, rfl⟩
  | none => exact .inr ⟨index, piece, ⟨hget, Bool.eq_false_iff.2 hvacant, hn⟩, rfl, rfl⟩

end Parameter

/-- The parameter list of a function of a text. -/
def FunctionDefinition.HasList (text : Slice) (function : FunctionDefinition) (list : Slice) :
    Prop :=
  ∃ head declarator after, head ∈ text.heads .topLevel ∧ read? head = some function ∧
    Declarator.read? head = some declarator ∧
    declarator.rest.skipSpace.block? = some (list, after)

/-- What is declared is a parameter without an identifier: it is named after the place of its entry
in the parameter list of a function, and stands where the entry does. -/
structure IsNumbered (text : Slice) (name : String) (kind : SymbolKind) (scope : Scope)
    (offset : Nat) : Prop where
  kind : kind = .parameter
  entry : ∃ function list index piece, FunctionDefinition.HasList text function list ∧
    Parameter.IsUnnamed list index piece ∧ scope = .function function.name ∧
    offset = piece.trim.start ∧ name = s!"param{index}"

namespace Candidate

variable {candidate : Candidate}

/-- What is declared is named as an identifier of the text, and stands where it does. -/
def IsNamed (text : Slice) (candidate : Candidate) : Prop :=
  ∃ name, IsIdentifier name text ∧ candidate.name = name.text ∧ candidate.offset = name.start

theorem isNamed_of_declaration {scope : Scope} {declaration : Declaration}
    (h : Declaration.read? slice = some declaration) (hp : IsPart slice text) :
    IsNamed text (ofVariable scope declaration) := by
  obtain ⟨name, hi, hname, hoffset⟩ := Declaration.isIdentifier_name h
  exact ⟨name, hi.of_isPart hp, hname, hoffset⟩

theorem isNamed_of_mem_ofFunction (hf : ∀ cell ∈ text.cells, cell.IsFaithful) {head : Slice}
    {function : FunctionDefinition} (hh : head ∈ text.heads .topLevel)
    (hr : FunctionDefinition.read? head = some function) (h : candidate ∈ ofFunction function) :
    IsNamed text candidate ∨
      IsNumbered text candidate.name candidate.kind candidate.scope candidate.offset := by
  have hp := (Slice.isTail_of_mem_heads hh).isPart
  rcases mem_ofFunction.1 h with rfl | ⟨parameter, hm, rfl⟩
  · obtain ⟨name, hi, hname, hoffset⟩ := FunctionDefinition.isIdentifier_name hr
    exact .inl ⟨name, hi.of_isPart hp, hname, hoffset⟩
  · obtain ⟨declarator, list, after, hd, _, hb, _, _, hparameters, _⟩ :=
      FunctionDefinition.read?_parts hr
    have htail := (Slice.isTail_skipSpace _).trans (Declarator.read?_spec hd).2.2.1
    have hrest := htail.isPart.trans hp
    have hlist := (Slice.block?_spec hb).1.trans hrest
    rw [hparameters] at hm
    rcases Parameter.isIdentifier_of_mem_readList hf hlist (Slice.breaksAt_block hf hrest hb) hm
      with hnamed | ⟨index, piece, hu, hname, hoffset⟩
    · exact .inl hnamed
    · exact .inr ⟨rfl, function, list, index, piece, ⟨head, declarator, after, hh, hr, hd, hb⟩, hu,
        rfl, hoffset, hname⟩

theorem isNamed_of_mem_collect (hf : ∀ cell ∈ text.cells, cell.IsFaithful)
    (h : candidate ∈ collect text) : IsNamed text candidate ∨
      IsNumbered text candidate.name candidate.kind candidate.scope candidate.offset := by
  rcases exists_read?_of_mem_collect h with ⟨head, hh, function, hr, hm⟩ |
    ⟨statement, declaration, scope, hp, hr, rfl⟩
  · exact isNamed_of_mem_ofFunction hf hh hr hm
  · exact .inl (isNamed_of_declaration hr hp)

theorem IsNamed.readsWord {text : String} (h : IsNamed (Source.ofString text).view candidate) :
    ReadsWord text candidate.offset candidate.name := by
  obtain ⟨name, hi, hname, hoffset⟩ := h
  rw [hname, hoffset]
  exact ReadsWord.of_maskText hi.readsWord

end Candidate

/-- Each entry of a symbol table stands where its offset is in the text, and the text reads its name
there as a whole word, unless it is a parameter without an identifier: that one is named after its
place in the list. -/
theorem symbolTable_identifiers (text : String) :
    ∀ name entry, (name, entry) ∈ (symbolTable text).entries →
      (⟨entry.line, entry.column⟩ : Location) = locate text entry.offset ∧
      (ReadsWord text entry.offset name ∨
        IsNumbered (Source.ofString text).view name entry.kind entry.scope entry.offset) := by
  intro name entry h
  obtain ⟨candidate, hm, he⟩ := Source.exists_candidate h
  cases he
  exact ⟨rfl, (Candidate.isNamed_of_mem_collect (Source.isFaithful_view text) hm).imp_left
    Candidate.IsNamed.readsWord⟩

theorem symbolTable_identifiers_function :
    (⟨1, 4⟩ : Location) = locate "int f(int *) \x7b \x7d" 4 ∧
      ReadsWord "int f(int *) \x7b \x7d" 4 "f" := by
  have hm : ("f", ⟨.function, "int", .global, 1, 4, some ["param0"], "0x1066", 4⟩) ∈
      (symbolTable "int f(int *) \x7b \x7d").entries := by
    rw [symbolTable, Source.symbols, Candidate.collect, List.mergeSort_of_pairwise]
    · decide +kernel
    · decide +kernel
  obtain ⟨hplace, hword⟩ := symbolTable_identifiers _ _ _ hm
  exact ⟨hplace, hword.resolve_right fun hn => absurd hn.kind (by decide)⟩

example : Parameter.readList (.ofString "int *, int b[]") =
    [⟨"param0", "int *", 0⟩, ⟨"b", "int", 11⟩] := by
  decide +kernel

end CodeOutline
