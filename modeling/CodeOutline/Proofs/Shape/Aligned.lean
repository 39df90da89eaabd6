import CodeOutline.Proofs.Delimiter.Aligned
import CodeOutline.Proofs.Shape.Declarator
import CodeOutline.Proofs.Shape.Part
import CodeOutline.Proofs.Text.Extent

namespace CodeOutline

open Cell (IsPadding Steady lineBreak)

variable {padded : Prop} {move : Nat → Nat} {position : Nat} {left right : List Cell}

namespace Keyword

/-- Pieces of two texts with the same first one, and keywords among the others of both or of
none. -/
def SameWords (pieces pieces' : List (List Char)) : Prop :=
  ∃ piece others others', pieces = piece :: others ∧ pieces' = piece :: others' ∧
    (others.any fun piece => isKeyword (String.ofList piece)) =
      others'.any fun piece => isKeyword (String.ofList piece)

theorem SameWords.any_eq {pieces pieces' : List (List Char)} (h : SameWords pieces pieces') :
    (pieces.any fun piece => isKeyword (String.ofList piece)) =
      pieces'.any fun piece => isKeyword (String.ofList piece) := by
  obtain ⟨piece, others, others', rfl, rfl, h⟩ := h
  rw [List.any_cons, List.any_cons, h]

theorem sameWords_aligned (h : Cell.Aligned padded move position left right) :
    SameWords (Text.pieces isBreak (Cell.chars left)) (Text.pieces isBreak (Cell.chars right)) := by
  induction h with
  | nil => exact ⟨[], [], [], rfl, rfl, rfl⟩
  | cons cell _ _ ih =>
    cases hc : cell.char? with
    | none => simpa only [Cell.chars, List.filterMap_cons, hc] using ih
    | some c =>
      simp only [Cell.chars, List.filterMap_cons, hc, Text.pieces] at ih ⊢
      split
      · exact ⟨[], _, _, rfl, rfl, ih.any_eq⟩
      · obtain ⟨piece, others, others', hl, hr, h⟩ := ih
        rw [hl, hr]
        exact ⟨c :: piece, others, others', rfl, rfl, h⟩
  | @pad position left right blank _ hb _ _ ih =>
    obtain ⟨c, hc, hbreak⟩ : ∃ c, blank.char? = some c ∧ isBreak c := by
      cases hb <;> exact ⟨_, rfl, by decide⟩
    have hline : isBreak '\n' := by decide
    have hk : isKeyword (String.ofList []) = false := by decide
    simp only [Cell.chars, List.filterMap_cons, hc, lineBreak, Text.pieces, hbreak, hline,
      if_true] at ih ⊢
    exact ⟨[], _, _, rfl, rfl, by rw [List.any_cons, hk, Bool.false_or, ih.any_eq]⟩

theorem occursIn_aligned {slice slice' : Slice} (h : Slice.Aligned padded move slice slice') :
    occursIn slice'.text = occursIn slice.text := by
  simp only [occursIn, Slice.text, Cell.text, String.toList_ofList]
  exact (sameWords_aligned h.cells).any_eq.symm

end Keyword

namespace Declarator

theorem readWords_aligned (h : Cell.Aligned padded move position left right) (count start : Nat)
    (stop : Option Nat) :
    readWords count (move start) (stop.map move) (move position) right =
      Prod.map id (Prod.map move move) (readWords count start stop position left) := by
  induction h generalizing count start stop with
  | nil => cases stop <;> rfl
  | @cons position left right cell hm _ ih =>
    rw [readWords.eq_def, readWords.eq_def]
    cases stop with
    | none =>
      simp only [Option.map_none, ← hm]
      split
      · exact ih count start none
      · split
        · exact ih count start (some position)
        · rfl
    | some stop =>
      simp only [Option.map_some, ← hm]
      split
      · exact ih count start (some stop)
      · split
        · exact ih (count + 1) position none
        · rfl
  | @pad position left right blank _ hb hm _ ih =>
    obtain ⟨hw, hs, hws⟩ : blank.within CharClass.isWord = false ∧
        blank.begins isSeparator ∧ blank.within isSeparator := by
      cases hb <;> decide
    obtain ⟨hw', hs', hws'⟩ : lineBreak.within CharClass.isWord = false ∧
        lineBreak.begins isSeparator ∧ lineBreak.within isSeparator := by decide
    cases stop with
    | none =>
      have ih := ih count start (some position)
      rw [hm] at ih
      simpa only [readWords, Option.map_none, Option.map_some, hw, hs, hw', hs', hws',
        Bool.false_eq_true, if_false, if_true] using ih
    | some stop =>
      have ih := ih count start (some stop)
      rw [hm] at ih
      simpa only [readWords, Option.map_some, hws, hws', if_true] using ih

theorem suffixEnd_aligned (h : Cell.Aligned padded move position left right) (multiline : Bool)
    (opened : Option Nat) :
    suffixEnd multiline (opened.map move) (move position) right =
      move (suffixEnd multiline opened position left) := by
  induction h generalizing opened with
  | nil => cases opened <;> rfl
  | @cons position left right cell hm _ ih =>
    rw [suffixEnd.eq_def, suffixEnd.eq_def]
    cases opened with
    | none =>
      simp only [Option.map_none, ← hm]
      split
      · exact ih (some position)
      · split
        · exact ih none
        · rfl
    | some start =>
      simp only [Option.map_some, ← hm]
      split
      · exact ih none
      · split
        · rfl
        · exact ih (some start)
  | @pad position left right blank _ hb hm _ ih =>
    obtain ⟨ho, hs, hx, hl⟩ : blank.isAscii '[' = false ∧ blank.within CharClass.isSpace ∧
        blank.isAscii ']' = false ∧ blank.isAscii '\n' = false := by
      cases hb <;> decide
    obtain ⟨ho', hs', hx', hl'⟩ : lineBreak.isAscii '[' = false ∧
        lineBreak.within CharClass.isSpace ∧ lineBreak.isAscii ']' = false ∧
        lineBreak.isAscii '\n' := by decide
    have ih := ih opened
    rw [hm] at ih
    cases opened with
    | none =>
      simpa only [suffixEnd, Option.map_none, ho, hs, ho', hs', Bool.false_eq_true, if_false,
        if_true] using ih
    | some start =>
      simp only [suffixEnd, Option.map_some, hx, hl, hx', hl', Bool.false_eq_true, if_false,
        false_and, true_and] at ih ⊢
      split
      · rfl
      · exact ih

theorem readWords_some (count start stop position : Nat) (cells : List Cell) :
    readWords count start (some stop) position cells = (count, start, stop) ∨
      position ≤ (readWords count start (some stop) position cells).2.1 := by
  induction cells generalizing position with
  | nil => exact .inl rfl
  | cons cell cells ih =>
    rw [readWords.eq_def]
    simp only
    split
    · exact (ih (position + 1)).imp_right Nat.le_of_succ_le
    · split
      · right
        rcases readWords_start (count + 1) position none (position + 1) cells with ⟨_, h⟩ | h
        · exact Nat.le_of_eq h.symm
        · exact Nat.le_of_succ_le h
      · exact .inl rfl

theorem pos_of_readWords_some {count start stop position index : Nat} {rest : List Cell}
    (hp : stop ≤ position)
    (hl : (readWords count start (some stop) (position + 1) rest).2.1 ≤ position + index)
    (hr : position + index < (readWords count start (some stop) (position + 1) rest).2.2) :
    0 < index := by
  rcases readWords_some count start stop (position + 1) rest with he | hle
  · rw [he] at hr
    exact absurd hr (Nat.not_lt.2 (Nat.le_add_right_of_le hp))
  · omega

theorem readWords_isWord (count start : Nat) (stop : Option Nat) (position : Nat)
    (cells : List Cell) {index : Nat} {cell : Cell} (hc : cells[index]? = some cell)
    (hl : (readWords count start stop position cells).2.1 ≤ position + index)
    (hr : position + index < (readWords count start stop position cells).2.2)
    (hp : stop.getD position ≤ position) : cell.within CharClass.isWord := by
  fun_induction readWords count start stop position cells generalizing index with
  | case1 => cases hc
  | case2 count start position first rest hw ih =>
    cases index with
    | zero =>
      cases hc
      exact hw
    | succ index => exact ih hc (by omega) (by omega) (Nat.le_refl _)
  | case3 count start position first rest hw hs ih =>
    obtain ⟨index, rfl⟩ := Nat.exists_eq_add_one.2 (pos_of_readWords_some hp hl hr)
    exact ih hc (by omega) (by omega) (Nat.le_succ _)
  | case4 => exact absurd hr (Nat.not_lt.2 (Nat.le_add_right ..))
  | case5 count start position first rest stop hs ih =>
    obtain ⟨index, rfl⟩ := Nat.exists_eq_add_one.2 (pos_of_readWords_some hp hl hr)
    exact ih hc (by omega) (by omega) (Nat.le_succ_of_le hp)
  | case6 count start position first rest stop hs hw ih =>
    cases index with
    | zero =>
      cases hc
      exact Cell.isWord_of_begins hw
    | succ index => exact ih hc (by omega) (by omega) (Nat.le_refl _)
  | case7 => exact absurd hr (Nat.not_lt.2 (Nat.le_add_right_of_le hp))

/-- The last word of a slice that begins with one. -/
def lastWord (start : Nat) (first : Cell) (rest : List Cell) : Slice :=
  let (_, begun, stop) := readWords 1 start none (start + 1) rest
  ((Slice.mk start (first :: rest)).fromOffset begun).toOffset stop

theorem lastWord_isWord {first : Cell} (hf : first.begins CharClass.isWordStart) (start : Nat)
    (rest : List Cell) : ∀ cell ∈ (lastWord start first rest).cells,
      cell.within CharClass.isWord := by
  intro cell hm
  have hword {index : Nat} (hc : rest[index]? = some cell) :=
    readWords_isWord 1 start none (start + 1) rest hc
  obtain ⟨hle, _⟩ := readWords_bounds 1 start none (start + 1) rest (Nat.lt_succ_self _)
    (Nat.le_refl _)
  rw [lastWord] at hm
  generalize readWords 1 start none (start + 1) rest = words at hword hle hm
  obtain ⟨count, begun, stop⟩ := words
  obtain ⟨index, hi⟩ := List.mem_iff_getElem?.1 hm
  have hlt := (List.getElem?_eq_some_iff.1 hi).1
  simp only [Slice.toOffset, Slice.fromOffset, Slice.take, List.length_take] at hlt hle hword
  simp only [Slice.toOffset, Slice.fromOffset, Slice.take,
    List.getElem?_take_of_lt (Nat.lt_min.1 hlt).1, List.getElem?_drop] at hi
  have hindex := (Nat.lt_min.1 hlt).1
  cases hp : begun - start + index with
  | zero =>
    rw [hp] at hi
    cases hi
    exact Cell.isWord_of_begins hf
  | succ place =>
    rw [hp, List.getElem?_cons_succ] at hi
    exact hword hi (by omega) (by omega) (Nat.le_refl _)

/-- Declarators at the place of each other. -/
structure Aligned (padded : Prop) (move : Nat → Nat) (declarator declarator' : Declarator) :
    Prop where
  typeWords : Slice.Aligned padded move declarator.typeWords declarator'.typeWords
  name : Slice.Matches move declarator.name declarator'.name
  rest : Slice.Aligned padded move declarator.rest declarator'.rest

theorem read?_aligned {slice slice' : Slice} (h : Slice.Aligned padded move slice slice') :
    Option.Rel (Aligned padded move) (read? slice) (read? slice') := by
  obtain ⟨start, cells⟩ := slice
  obtain ⟨start', cells'⟩ := slice'
  have haligned := h
  obtain ⟨rfl, h⟩ := h
  cases h with
  | nil => exact .none
  | @cons _ left right cell hm h =>
    by_cases hf : cell.begins CharClass.isWordStart
    · have hwords := readWords_aligned h 1 start none
      rw [hm, Option.map_none] at hwords
      have hname := lastWord_isWord hf start left
      obtain ⟨hle, hlt, hstop⟩ := readWords_bounds 1 start none (start + 1) left
        (Nat.lt_succ_self _) (Nat.le_refl _)
      simp only [read?, hf, if_true, hwords, lastWord] at hname ⊢
      generalize readWords 1 start none (start + 1) left = words at hle hlt hstop hname ⊢
      obtain ⟨count, begun, stop⟩ := words
      simp only [Prod.map, id] at hle hlt hstop hname ⊢
      have hbound : stop ≤ Slice.stop ⟨start, cell :: left⟩ := by
        rw [Slice.stop_mk, List.length_cons]
        omega
      have hbegun : begun ≤ Slice.stop ⟨start, cell :: left⟩ :=
        Nat.le_of_lt (Nat.lt_of_lt_of_le hlt hbound)
      have htype := haligned.toOffset hle hbegun
      have hlast := (haligned.fromOffset hle hbegun).toOffset (Nat.le_of_lt hlt)
        ((Slice.isTail_fromOffset hle hbegun).stop_eq ▸ hbound)
      have hcells := hlast.cells.eq (.inr fun hm => absurd (hname _ hm) (by decide))
      have hmatch : Slice.Matches move _ _ := ⟨hlast.start_eq, hcells.symm⟩
      refine rel_ite ?_ (.some ⟨htype, hmatch,
        haligned.fromOffset (Nat.le_of_lt (Nat.lt_of_le_of_lt hle hlt)) hbound⟩) .none
      rw [Keyword.occursIn_aligned htype, hmatch.text_eq]
    · simp only [read?, hf]
      exact .none
  | pad _ hb =>
    have hf : ∀ blank, IsPadding blank → blank.begins CharClass.isWordStart = false := by
      rintro _ (_ | _) <;> rfl
    have hf' : lineBreak.begins CharClass.isWordStart = false := rfl
    simp only [read?, hf _ hb, hf']
    exact .none

end Declarator

/-- Declarations at the place of each other. -/
structure Declaration.Aligned (padded : Prop) (move : Nat → Nat)
    (declaration declaration' : Declaration) : Prop where
  start_eq : declaration'.start = move declaration.start
  declaredType_eq : ¬ padded → declaration'.declaredType = declaration.declaredType
  name_eq : declaration'.name = declaration.name
  nameOffset_eq : declaration'.nameOffset = move declaration.nameOffset
  initializer : Option.Rel (Slice.Aligned padded move) declaration.initializer
    declaration'.initializer

theorem Declaration.aligned_ofDeclarator {declarator declarator' : Declarator}
    (h : Declarator.Aligned padded move declarator declarator') {value value' : Option Slice}
    (hv : Option.Rel (Slice.Aligned padded move) value value') (stop stop' : Nat) :
    Declaration.Aligned padded move (ofDeclarator declarator value stop)
      (ofDeclarator declarator' value' stop') where
  start_eq := h.typeWords.start_eq
  declaredType_eq hn := congrArg Text.trim (h.typeWords.text_eq hn)
  name_eq := h.name.text_eq
  nameOffset_eq := h.name.start_eq
  initializer := hv

theorem Declaration.read?_aligned {slice slice' : Slice}
    (h : Slice.Aligned padded move slice slice') :
    Option.Rel (Declaration.Aligned padded move) (read? slice) (read? slice') := by
  refine rel_bind (Declarator.read?_aligned h) fun declarator declarator' hd => ?_
  have hsuffix := Declarator.suffixEnd_aligned hd.rest.cells false none
  obtain ⟨hle, hstop⟩ := Declarator.suffixEnd_bounds false none declarator.rest.start
    declarator.rest.cells (Nat.le_refl _)
  have hafter := hd.rest.fromOffset hle hstop
  rw [← hsuffix, Option.map_none, ← hd.rest.start_eq] at hafter
  have hequals := hafter.startsWith_eq (c := '=') (by rintro _ (_ | _) <;> rfl)
  have hsemicolon := hafter.startsWith_eq (c := ';') (by rintro _ (_ | _) <;> rfl)
  simp only [hequals, hsemicolon]
  split
  · next hs =>
    have hvalue := hafter.drop_one hs rfl
    rw [hvalue.find? rfl]
    cases hf : Slice.find? 0x3B _ with
    | none => exact .none
    | some stop =>
      obtain ⟨hl, hr⟩ := Slice.find?_bounds hf
      exact .some (aligned_ofDeclarator hd (.some (hvalue.toOffset hl (Nat.le_of_lt hr))) _ _)
  · split
    · exact .some (aligned_ofDeclarator hd .none _ _)
    · exact .none

namespace Parameter

theorem isPart_name? {name : Slice} {cells : List Cell} (h : name? position cells = some name) :
    Slice.IsPart name ⟨position, cells⟩ := by
  induction cells generalizing position with
  | nil => cases h
  | cons cell rest ih =>
    have htail := (Slice.isTail_cons position cell rest).isPart
    rw [name?] at h
    split at h
    · next hw =>
      split at h
      · cases h
        exact (Slice.word?_spec hw).1
      · exact (ih h).trans htail
    · exact (ih h).trans htail

theorem suffixEnd_eq_stop {slice slice' : Slice} (h : Slice.Aligned padded move slice slice') :
    Declarator.suffixEnd true none slice'.start slice'.cells = slice'.stop ↔
      Declarator.suffixEnd true none slice.start slice.cells = slice.stop := by
  have hsuffix := Declarator.suffixEnd_aligned h.cells true none
  obtain ⟨hle, hstop⟩ := Declarator.suffixEnd_bounds true none slice.start slice.cells
    (Nat.le_refl _)
  obtain ⟨hle', hstop'⟩ := Declarator.suffixEnd_bounds true none slice'.start slice'.cells
    (Nat.le_refl _)
  have hrest := (h.fromOffset hle hstop).isEmpty_eq
  rw [← hsuffix, Option.map_none, ← h.start_eq] at hrest
  rw [← Slice.isEmpty_fromOffset hle hstop, ← hrest, Slice.isEmpty_fromOffset hle' hstop']

theorem name?_aligned (h : Cell.Aligned padded move position left right) :
    Option.Rel (Slice.Matches move) (name? position left) (name? (move position) right) := by
  induction h with
  | nil => exact .none
  | @cons position left right cell hm h ih =>
    have hword := (Slice.Aligned.mk rfl (.cons cell hm h) : Slice.Aligned padded move
      ⟨position, cell :: left⟩ ⟨move position, cell :: right⟩).word? Cell.steady_isWord rfl
    rw [hm] at ih
    rw [name?, name?]
    generalize Slice.word? CharClass.isWord ⟨position, cell :: left⟩ = word at hword ⊢
    generalize Slice.word? CharClass.isWord ⟨move position, cell :: right⟩ = word' at hword ⊢
    cases hword with
    | none => exact ih
    | some hword => exact rel_ite (suffixEnd_eq_stop hword.2).symm (.some hword.1) ih
  | @pad position left right blank _ hb hm _ ih =>
    have hnone (cell : Cell) (hc : cell.begins CharClass.isWordStart = false) (position : Nat)
        (rest : List Cell) : name? position (cell :: rest) = name? (position + 1) rest := by
      rw [name?, Slice.word?]
      simp only [hc, Bool.false_eq_true, if_false]
    rw [hm] at ih
    rw [hnone lineBreak rfl, hnone blank (by cases hb <;> rfl), hnone lineBreak rfl]
    exact ih

/-- Parameters at the place of each other. -/
structure Aligned (padded : Prop) (move : Nat → Nat) (parameter parameter' : Parameter) : Prop where
  name_eq : parameter'.name = parameter.name
  declaredType_eq : ¬ padded → parameter'.declaredType = parameter.declaredType
  isEmpty_eq : parameter'.declaredType.isEmpty = parameter.declaredType.isEmpty
  offset_eq : parameter'.offset = move parameter.offset

variable {entry entry' list list' : Slice}

theorem aligned_ofEntry (h : Slice.Aligned padded move entry entry') (index : Nat) :
    Aligned padded move (ofEntry index entry) (ofEntry index entry') := by
  have hname := name?_aligned h.cells
  rw [← h.start_eq] at hname
  rw [ofEntry, ofEntry]
  cases hn : name? entry.start entry.cells with
  | none =>
    rw [hn] at hname
    generalize name? entry'.start entry'.cells = name' at hname ⊢
    cases hname
    exact ⟨rfl, h.text_eq, h.text_isEmpty_eq, h.start_eq⟩
  | some name =>
    have hp := isPart_name? hn
    rw [hn] at hname
    generalize name? entry'.start entry'.cells = name' at hname ⊢
    cases hname with
    | some hmatch =>
      have htype := h.toOffset hp.start_le (Nat.le_trans (Slice.start_le_stop _) hp.stop_le)
      rw [← hmatch.start_eq] at htype
      exact ⟨hmatch.text_eq, htype.trim.text_eq, htype.trim.text_isEmpty_eq, hmatch.start_eq⟩

theorem text_eq_iff (h : Slice.Aligned padded move entry entry') {word : String}
    (hw : '\n' ∉ word.toList) : entry'.text = word ↔ entry.text = word := by
  have hmem {slice : Slice} (ht : slice.text = word) : lineBreak ∉ slice.cells := by
    intro hm
    apply hw
    rw [← ht, Slice.text, Cell.text, String.toList_ofList]
    exact List.mem_filterMap.2 ⟨lineBreak, hm, rfl⟩
  constructor
  · intro ht
    rw [← ht, Slice.text, Slice.text, h.cells.eq (.inr (mt h.cells.lineBreak_mem (hmem ht)))]
  · intro ht
    rw [← ht, Slice.text, Slice.text, h.cells.eq (.inr (hmem ht))]

theorem isVacant_aligned (h : Slice.Aligned padded move entry entry') :
    isVacant entry' = isVacant entry := by
  rw [isVacant, isVacant, h.isEmpty_eq]
  congr 1
  · congr 1
    exact decide_eq_decide.2 (text_eq_iff h (by decide))
  · exact decide_eq_decide.2 (text_eq_iff h (by decide))

theorem readList_aligned (h : Slice.Aligned padded move list list') :
    List.Forall₂ (Aligned padded move) (readList list) (readList list') := by
  have hentries := forall₂_zipIdx
    (forall₂_map (h.split (show CharClass.isBlank 0x2C = false from rfl))
      fun _ _ hr => Slice.Aligned.trim hr) 0
  refine List.rel_filterMap ?_ hentries
  rintro ⟨entry, index⟩ ⟨entry', _⟩ ⟨hr, rfl⟩
  exact rel_ite (by rw [isVacant_aligned hr]) .none (.some (aligned_ofEntry hr _))

end Parameter

namespace FunctionDefinition

/-- Function definitions at the place of each other. -/
structure Aligned (padded : Prop) (move : Nat → Nat) (function function' : FunctionDefinition) :
    Prop where
  start_eq : function'.start = move function.start
  returnType_eq : ¬ padded → function'.returnType = function.returnType
  name_eq : function'.name = function.name
  nameOffset_eq : function'.nameOffset = move function.nameOffset
  parameters : List.Forall₂ (Parameter.Aligned padded move) function.parameters
    function'.parameters
  opening_eq : function'.opening = move function.opening
  closing_eq : function'.closing = function.closing.map move
  body : Slice.Aligned padded move function.body function'.body

variable {slice slice' : Slice} {function function' : FunctionDefinition}

theorem Aligned.extent_eq (h : Aligned padded move function function') :
    function'.extent = function.extent.relocate move := by
  rw [extent, extent, h.opening_eq, h.closing_eq, h.body.stop_eq]
  cases function.closing <;> rfl

theorem Aligned.parameterNames_eq (h : Aligned padded move function function') :
    function'.parameterNames = function.parameterNames :=
  (map_eq_of_forall₂ h.parameters fun _ _ hr => hr.name_eq.symm).symm

theorem read?_aligned (h : Slice.Aligned padded move slice slice') :
    Option.Rel (Aligned padded move) (read? slice) (read? slice') := by
  refine rel_bind (Declarator.read?_aligned h) fun declarator declarator' hd => ?_
  have hlist := hd.rest.skipSpace
  refine rel_ite (by rw [hlist.startsWith_eq (c := '(') (by rintro _ (_ | _) <;> rfl)]) ?_ .none
  refine rel_bind hlist.block? fun (entries, after) (entries', after') ⟨hentries, hafter⟩ => ?_
  have hbraced := hafter.skipBlank
  have hstarts := hbraced.startsWith_eq (c := '{') (by rintro _ (_ | _) <;> rfl)
  simp only [hstarts]
  split
  · next hs =>
    refine .some ⟨h.start_eq, fun hn => congrArg Text.trim (hd.typeWords.text_eq hn),
      hd.name.text_eq, hd.name.start_eq, Parameter.readList_aligned hentries, hbraced.start_eq,
      hbraced.close?, ?_⟩
    have hblock := hbraced.block?
    simp only
    generalize after.skipBlank.block? = block at hblock ⊢
    generalize after'.skipBlank.block? = block' at hblock ⊢
    cases hblock with
    | none => exact hbraced.drop_one hs rfl
    | some hblock => exact hblock.1
  · exact .none

theorem findAll_aligned (h : Slice.Aligned padded move slice slice') :
    List.Forall₂ (Aligned padded move) (findAll slice) (findAll slice') :=
  h.filterMap_statementStarts .topLevel fun _ _ => read?_aligned

end FunctionDefinition

theorem Declaration.findGlobals_aligned {slice slice' : Slice} (hmove : StrictMono move)
    (h : Slice.Aligned padded move slice slice') :
    List.Forall₂ (Aligned padded move)
      (findGlobals slice (FunctionDefinition.findAll slice))
      (findGlobals slice' (FunctionDefinition.findAll slice')) := by
  refine List.rel_filter ?_ (h.filterMap_statementStarts .topLevel fun _ _ => read?_aligned)
  intro declaration declaration' hd
  have hany := any_eq_of_forall₂ (FunctionDefinition.findAll_aligned h)
    (p := (·.extent.contains declaration.start)) (q := (·.extent.contains declaration'.start))
    fun function function' hf => by
      rw [hf.extent_eq, hd.start_eq, Extent.contains_relocate hmove]
  simp only [hany]

end CodeOutline
