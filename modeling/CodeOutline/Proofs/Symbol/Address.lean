import CodeOutline.Proofs.Outline.Size
import CodeOutline.Proofs.Program.Verbatim
import CodeOutline.Proofs.Shape.Aligned
import CodeOutline.Proofs.Symbol.Candidate
import CodeOutline.Text.Digits

namespace CodeOutline

open Slice (IsPart IsTail)

namespace PseudoAddress

/-- Adds a character's code in 32 bits, unless something is carried out of them. -/
def add? (sum : UInt32) (c : Char) : Option UInt32 :=
  if sum.toNat + c.val.toNat < UInt32.size then some (sum + c.val) else none

/-- The sum of a name's character codes, added one after the other. -/
def sum? (name : String) : Option UInt32 :=
  name.toList.foldlM add? 0

/-- The address of a name in a scope, computed in 32 bits throughout. -/
def address? (name : String) (scope : Scope) : Option String :=
  (sum? name).map fun sum =>
    if scope.isGlobal then "0x" ++ hexadecimal (sum % 0xFFFF + 0x1000).toNat
    else "SP+" ++ toString (sum % 128).toNat

theorem codeSum_eq_sum (name : String) : codeSum name = (name.toList.map Char.toNat).sum := by
  rw [codeSum, List.sum_eq_foldr, List.foldr_map]

theorem map_foldlM_add? (sum : UInt32) (chars : List Char) :
    (chars.foldlM add? sum).map UInt32.toNat =
      if sum.toNat + (chars.map Char.toNat).sum < UInt32.size then
        some (sum.toNat + (chars.map Char.toNat).sum)
      else none := by
  induction chars generalizing sum with
  | nil =>
    rw [List.map_nil, List.sum_nil, Nat.add_zero, if_pos sum.toNat_lt]
    rfl
  | cons c rest ih =>
    rw [List.foldlM_cons, List.map_cons, List.sum_cons, ← Nat.add_assoc, add?, Char.toNat_val]
    by_cases hlt : sum.toNat + c.toNat < UInt32.size
    · have hadd : (sum + c.val).toNat = sum.toNat + c.toNat := by
        rw [UInt32.toNat_add, Char.toNat_val]
        exact Nat.mod_eq_of_lt hlt
      rw [if_pos hlt]
      exact hadd ▸ ih (sum + c.val)
    · have hge : ¬ sum.toNat + c.toNat + (rest.map Char.toNat).sum < UInt32.size := by omega
      rw [if_neg hlt, if_neg hge]
      rfl

theorem map_sum? (name : String) :
    (sum? name).map UInt32.toNat = if fits name then some (codeSum name) else none := by
  have hmap := map_foldlM_add? 0 name.toList
  rw [UInt32.toNat_zero, Nat.zero_add, ← codeSum_eq_sum] at hmap
  rw [sum?, hmap, fits]
  simp only [decide_eq_true_eq]

/-- An address can be computed just if the exact sum is below 2³², and then it is the one that the
exact sum gives. -/
theorem address?_eq (name : String) (scope : Scope) :
    address? name scope = if fits name then some (ofName name scope) else none := by
  have hsum := map_sum? name
  rw [address?]
  cases hs : sum? name with
  | none =>
    rw [hs] at hsum
    split at hsum
    · cases hsum
    · next hf => rw [if_neg hf, Option.map_none]
  | some sum =>
    rw [hs] at hsum
    split at hsum
    · next hf =>
      have hcode : sum.toNat = codeSum name := Option.some.inj hsum
      have hlow : (sum % 128).toNat = codeSum name % 128 := by
        rw [UInt32.toNat_mod, hcode]
        rfl
      have hhigh : (sum % 0xFFFF + 0x1000).toNat = codeSum name % 0xFFFF + 0x1000 := by
        have hmod : (sum % 0xFFFF).toNat = codeSum name % 0xFFFF := by
          rw [UInt32.toNat_mod, hcode]
          rfl
        rw [UInt32.toNat_add, hmod]
        apply Nat.mod_eq_of_lt
        have hlt := Nat.mod_lt (codeSum name) (y := 0xFFFF) (by decide)
        change codeSum name % 0xFFFF + 0x1000 < 2 ^ 32
        omega
      rw [if_pos hf, Option.map_some, hlow, hhigh, ofName]
    · cases hsum

end PseudoAddress

/-- Digits that write a number in upper-case hexadecimal, without leading zeros. -/
structure IsHexadecimal (number : Nat) (digits : List Char) : Prop where
  value : Text.natOfDigits 16 digits = number
  digit : ∀ c ∈ digits, c ∈ "0123456789ABCDEF".toList
  head : digits.head? ≠ some '0'

theorem natOfDigits_append (base : Nat) (front : List Char) (last : Char) :
    Text.natOfDigits base (front ++ [last]) =
      base * Text.natOfDigits base front + Text.digitValue last := by
  rw [Text.natOfDigits, List.foldl_append]
  rfl

theorem digitChar_toUpper : ∀ value < 16, Text.digitValue value.digitChar.toUpper = value ∧
    value.digitChar.toUpper ∈ "0123456789ABCDEF".toList ∧
    (value ≠ 0 → value.digitChar.toUpper ≠ '0') := by
  decide

theorem IsHexadecimal.digitChar {value : Nat} (h : value < 16) (hz : value ≠ 0) :
    IsHexadecimal value [value.digitChar.toUpper] := by
  obtain ⟨hv, hm, hne⟩ := digitChar_toUpper value h
  refine ⟨?_, ?_, ?_⟩
  · rw [Text.natOfDigits, List.foldl_cons, List.foldl_nil, hv]
    exact Nat.zero_add value
  · intro c hc
    rw [List.mem_singleton.1 hc]
    exact hm
  · intro hc
    exact hne hz (Option.some.inj hc)

theorem IsHexadecimal.append {number value : Nat} {digits : List Char}
    (h : IsHexadecimal number digits) (hd : digits ≠ []) (hv : value < 16) :
    IsHexadecimal (16 * number + value) (digits ++ [value.digitChar.toUpper]) := by
  obtain ⟨hvalue, hm, _⟩ := digitChar_toUpper value hv
  refine ⟨?_, ?_, ?_⟩
  · rw [natOfDigits_append, h.value, hvalue]
  · intro c hc
    rcases List.mem_append.1 hc with hc | hc
    · exact h.digit c hc
    · rw [List.mem_singleton.1 hc]
      exact hm
  · rw [List.head?_append_of_ne_nil _ hd]
    exact h.head

theorem isHexadecimal_toDigits {number : Nat} (h : number ≠ 0) :
    IsHexadecimal number ((Nat.toDigits 16 number).map Char.toUpper) := by
  induction number using Nat.strong_induction_on with
  | _ number ih =>
    rw [Nat.toDigits_eq_if (by decide)]
    split
    · next hlt => exact .digitChar hlt h
    · next hle =>
      have hfront := ih (number / 16) (by omega) (by omega)
      have hne : (Nat.toDigits 16 (number / 16)).map Char.toUpper ≠ [] := by
        rw [ne_eq, List.map_eq_nil_iff]
        exact List.ne_nil_of_length_pos Nat.length_toDigits_pos
      have happend := hfront.append hne (Nat.mod_lt number (by decide))
      rwa [Nat.div_add_mod, ← List.map_singleton, ← List.map_append] at happend

theorem CharClass.toNat_le_of_isWord {c : Char} (h : isWord c) : c.toNat ≤ 0xE01EF := by
  have hcovers {ranges : List (Nat × Nat)} (hr : ∀ range ∈ ranges, range.2 ≤ 0xE01EF)
      (hc : CharTable.covers ranges c.toNat) : c.toNat ≤ 0xE01EF := by
    obtain ⟨range, hm, hin⟩ := List.any_eq_true.1 hc
    rw [Bool.and_eq_true, decide_eq_true_eq, decide_eq_true_eq] at hin
    exact Nat.le_trans hin.2 (hr range hm)
  rw [isWord] at h
  split at h
  · omega
  · simp only [Bool.or_eq_true, decide_eq_true_eq] at h
    rcases h with ((((h | h) | h) | h) | rfl) | rfl
    · exact hcovers (by decide +kernel) h
    · exact hcovers (by decide +kernel) h
    · exact hcovers (by decide +kernel) h
    · exact hcovers (by decide +kernel) h
    · decide
    · decide

theorem CharClass.toNat_le_utf8Size {c : Char} (h : isWord c) :
    4 * c.toNat ≤ 0xE01EF * c.utf8Size := by
  have hle := toNat_le_of_isWord h
  have hsize : (c.toNat < 0x80 ∧ c.utf8Size = 1) ∨ (c.toNat < 0x800 ∧ c.utf8Size = 2) ∨
      (c.toNat < 0x10000 ∧ c.utf8Size = 3) ∨ c.utf8Size = 4 := by
    rw [Char.utf8Size]
    split
    · next hv => exact .inl ⟨Nat.lt_succ_of_le hv, rfl⟩
    · split
      · next hv => exact .inr (.inl ⟨Nat.lt_succ_of_le hv, rfl⟩)
      · split
        · next hv => exact .inr (.inr (.inl ⟨Nat.lt_succ_of_le hv, rfl⟩))
        · exact .inr (.inr (.inr rfl))
  omega

namespace PseudoAddress

theorem sum_codes_le {chars word : List Char} (hs : word.Sublist chars)
    (h : ∀ c ∈ word, CharClass.isWord c) :
    4 * (word.map Char.toNat).sum ≤ 0xE01EF * Cell.width chars := by
  induction hs with
  | slnil => exact Nat.zero_le _
  | cons c _ ih =>
    have hle := ih h
    rw [Cell.width_cons]
    omega
  | cons_cons c _ ih =>
    have hle := ih fun d hd => h d (List.mem_cons_of_mem _ hd)
    have hc := CharClass.toNat_le_utf8Size (h c List.mem_cons_self)
    rw [Cell.width_cons, Cell.ofChar_length, List.map_cons, List.sum_cons]
    omega

end PseudoAddress

namespace Slice

/-- A word of a text: a part with characters of words only. -/
structure IsWordOf (word text : Slice) : Prop where
  part : IsPart word text
  within : ∀ cell ∈ word.cells, cell.within CharClass.isWord

variable {word text whole slice : Slice} {chars : List Char}

theorem IsWordOf.of_isPart (h : word.IsWordOf text) (hp : IsPart text whole) :
    word.IsWordOf whole :=
  ⟨h.part.trans hp, h.within⟩

theorem isWordOf_word? {name after : Slice}
    (h : slice.word? CharClass.isWord = some (name, after)) : name.IsWordOf slice := by
  obtain ⟨first, word, rest, _, hname, _, hb, hw, _⟩ := word?_append h
  refine ⟨(word?_spec h).1, ?_⟩
  rw [hname]
  exact List.forall_mem_cons.2 ⟨Cell.isWord_of_begins hb, hw⟩

/-- The codes of a word do not add up to more than there is room for in its text. -/
theorem IsWordOf.codeSum_le (h : word.IsWordOf (laid 0 chars)) :
    4 * PseudoAddress.codeSum word.text ≤ 0xE01EF * Cell.width chars := by
  rw [PseudoAddress.codeSum_eq_sum, Slice.text, Cell.text, String.toList_ofList]
  apply PseudoAddress.sum_codes_le
  · obtain ⟨before, after, hc, _⟩ := h.part
    have hsub : word.cells.Sublist (Cell.layout chars) := by
      have hcells : Cell.layout chars = before ++ (word.cells ++ after) := hc
      rw [hcells]
      exact (List.sublist_append_left ..).trans (List.sublist_append_right ..)
    have hchars := hsub.filterMap Cell.char?
    rwa [← Cell.chars, ← Cell.chars, Cell.chars_layout] at hchars
  · intro c hc
    obtain ⟨cell, hm, hcell⟩ := List.mem_filterMap.1 hc
    have hword := h.within cell hm
    rwa [Cell.within, hcell] at hword

end Slice

theorem Declarator.isWordOf_name {slice : Slice} {declarator : Declarator}
    (h : read? slice = some declarator) : declarator.name.IsWordOf slice := by
  refine ⟨(read?_spec h).2.1, ?_⟩
  obtain ⟨cell, rest, count, start, stop, hc, hb, hw, _, rfl⟩ := read?_eq_some h
  have hlast := lastWord_isWord hb slice.start rest
  rw [lastWord, hw] at hlast
  obtain ⟨position, cells⟩ := slice
  cases hc
  exact hlast

namespace Parameter

variable {list entry : Slice} {parameter : Parameter} {index : Nat}

theorem isWordOf_name? {position : Nat} {cells : List Cell} {name : Slice}
    (h : name? position cells = some name) : name.IsWordOf ⟨position, cells⟩ := by
  induction cells generalizing position with
  | nil => cases h
  | cons cell rest ih =>
    have hlater (h : name? (position + 1) rest = some name) :
        name.IsWordOf ⟨position, cell :: rest⟩ :=
      (ih h).of_isPart (Slice.isTail_cons ..).isPart
    rw [name?] at h
    split at h
    · next hw =>
      split at h
      · cases h
        exact Slice.isWordOf_word? hw
      · exact hlater h
    · exact hlater h

theorem name_of_mem_readList (h : parameter ∈ readList list) :
    (∃ word, Slice.IsWordOf word list ∧ parameter.name = word.text) ∨
      ∃ index ≤ list.cells.length, parameter.name = s!"param{index}" := by
  rw [readList, List.mem_filterMap] at h
  obtain ⟨⟨entry, index⟩, hm, h⟩ := h
  obtain ⟨_, he⟩ := Option.ite_none_left_eq_some.1 h
  cases he
  have hentry := List.fst_mem_of_mem_zipIdx hm
  obtain ⟨piece, hp, rfl⟩ := List.mem_map.1 hentry
  have hpart := (Slice.isPart_trim piece).trans (Slice.isPart_split hp)
  rw [ofEntry]
  cases hn : name? piece.trim.start piece.trim.cells with
  | some name => exact .inl ⟨name, (isWordOf_name? hn).of_isPart hpart, rfl⟩
  | none =>
    have hindex := List.snd_lt_of_mem_zipIdx hm
    have hlength := list.length_split_le 0x2C
    rw [List.length_map] at hindex
    refine .inr ⟨index, ?_, rfl⟩
    change index < (list.split 0x2C).length at hindex
    omega

end Parameter

namespace Candidate

variable {text : Slice} {candidate : Candidate}

theorem isWordOf_declaration {slice : Slice} {declaration : Declaration}
    (h : Declaration.read? slice = some declaration) (hp : IsPart slice text) :
    ∃ word, Slice.IsWordOf word text ∧ declaration.name = word.text := by
  obtain ⟨declarator, _, _, hr, rfl⟩ := Declaration.read?_declarator h
  exact ⟨declarator.name, (Declarator.isWordOf_name hr).of_isPart hp, rfl⟩

theorem name_of_mem_ofFunction {head : Slice} {function : FunctionDefinition}
    (hr : FunctionDefinition.read? head = some function) (hp : IsPart head text)
    (h : candidate ∈ ofFunction function) :
    (∃ word, Slice.IsWordOf word text ∧ candidate.name = word.text) ∨
      ∃ index ≤ text.cells.length, candidate.name = s!"param{index}" := by
  rcases mem_ofFunction.1 h with rfl | ⟨parameter, hm, rfl⟩
  · obtain ⟨declarator, _, _, hd, hname, _⟩ := FunctionDefinition.read?_opening hr
    exact .inl ⟨declarator.name, (Declarator.isWordOf_name hd).of_isPart hp, hname⟩
  · obtain ⟨declarator, entries, _, hd, _, hb, _, _, hparameters, _⟩ :=
      FunctionDefinition.read?_parts hr
    have hrest := (Declarator.read?_spec hd).2.2.1
    have hentries := ((Slice.block?_spec hb).1.trans
      ((Slice.isTail_skipSpace _).trans hrest).isPart).trans hp
    rw [hparameters] at hm
    rcases Parameter.name_of_mem_readList hm with ⟨word, hw, hname⟩ | ⟨index, hle, hname⟩
    · exact .inl ⟨word, hw.of_isPart hentries, hname⟩
    · exact .inr ⟨index, Nat.le_trans hle hentries.length_le, hname⟩

theorem name_of_mem_collect (h : candidate ∈ collect text) :
    (∃ word, Slice.IsWordOf word text ∧ candidate.name = word.text) ∨
      ∃ index ≤ text.cells.length, candidate.name = s!"param{index}" := by
  rcases exists_read?_of_mem_collect h with ⟨head, hh, function, hr, hm⟩ |
    ⟨statement, declaration, scope, hp, hr, rfl⟩
  · exact name_of_mem_ofFunction hr (Slice.isTail_of_mem_heads hh).isPart hm
  · exact .inl (isWordOf_declaration hr hp)

end Candidate

namespace PseudoAddress

theorem codeSum_append (left right : String) :
    codeSum (left ++ right) = codeSum left + codeSum right := by
  rw [codeSum_eq_sum, codeSum_eq_sum, codeSum_eq_sum, String.toList_append, List.map_append,
    List.sum_append]

theorem sum_digits_le {digits : List Char} (h : ∀ c ∈ digits, c.isDigit) :
    (digits.map Char.toNat).sum ≤ 57 * digits.length := by
  induction digits with
  | nil => exact Nat.le_refl _
  | cons c rest ih =>
    have hrest := ih fun d hd => h d (List.mem_cons_of_mem _ hd)
    have hc : c.toNat ≤ 57 :=
      of_decide_eq_true (Bool.and_eq_true_iff.1 (h c List.mem_cons_self)).2
    rw [List.map_cons, List.sum_cons, List.length_cons]
    omega

theorem codeSum_numbered {index : Nat} (h : index < 100000) : codeSum s!"param{index}" ≤ 814 := by
  have hlength := (Nat.length_toDigits_le_iff (b := 10) (k := 5) (by decide) (by decide)).2 h
  have hdigits := sum_digits_le fun c (hc : c ∈ Nat.toDigits 10 index) =>
    Nat.isDigit_of_mem_toDigits (by decide) (by decide) hc
  have hindex : codeSum (toString index) = ((Nat.toDigits 10 index).map Char.toNat).sum := by
    rw [codeSum_eq_sum, Nat.toString_eq_repr, Nat.toList_repr]
  have hstem : codeSum "param" = 529 := by decide
  change codeSum ("param" ++ toString index) ≤ 814
  rw [codeSum_append, hstem]
  omega

theorem fits_iff (name : String) : fits name ↔ codeSum name < 2 ^ 32 := by
  rw [fits, decide_eq_true_eq]
  rfl

theorem address?_eq_none_iff (name : String) (scope : Scope) :
    address? name scope = none ↔ 2 ^ 32 ≤ codeSum name := by
  rw [address?_eq, ite_eq_right_iff, ← Nat.not_lt, ← fits_iff]
  simp only [reduceCtorEq, imp_false]

theorem address?_formula {name address : String} {scope : Scope}
    (h : address? name scope = some address) :
    (scope = .global → ∃ digits, IsHexadecimal (codeSum name % 65535 + 4096) digits ∧
      address = "0x" ++ String.ofList digits) ∧
    (scope ≠ .global → address = "SP+" ++ toString (codeSum name % 128)) := by
  rw [address?_eq] at h
  obtain ⟨_, he⟩ := Option.ite_none_right_eq_some.1 h
  cases he
  constructor
  · rintro rfl
    exact ⟨_, isHexadecimal_toDigits (Nat.succ_ne_zero _), rfl⟩
  · intro hs
    cases scope with
    | global => exact absurd rfl hs
    | function owner => rfl

end PseudoAddress

section

open PseudoAddress (codeSum fits fits_iff address?)

variable {text : String} {table : SymbolTable}

/-- There is a table just if all declared names have addresses, and by `symbolTable?_eq_some` it is
then the one that `symbolTable` gives. -/
theorem symbolTable?_isSome : (symbolTable? text).isSome ↔
    ∀ candidate ∈ Candidate.collect (Source.ofString text).view,
      codeSum candidate.name < 2 ^ 32 := by
  rw [symbolTable?]
  simp only [List.all_eq_true, fits_iff]
  split
  · next h => exact ⟨fun _ => h, fun _ => rfl⟩
  · next h => exact ⟨fun hs => absurd hs Bool.false_ne_true, fun hs => absurd hs h⟩

theorem codeSum_lt_of_size (hs : text.utf8ByteSize ≤ 18714) {candidate : Candidate}
    (h : candidate ∈ Candidate.collect (Source.ofString text).view) :
    codeSum candidate.name < 2 ^ 32 := by
  have hwidth : Cell.width (Mask.chars text.toList) = text.utf8ByteSize := by
    rw [← Source.stop_view]
    exact (Nat.zero_add _).symm
  rcases Candidate.name_of_mem_collect h with ⟨word, hw, hname⟩ | ⟨index, hle, hname⟩
  · have hsum : 4 * codeSum word.text ≤ 0xE01EF * Cell.width (Mask.chars text.toList) :=
      hw.codeSum_le
    rw [hname]
    omega
  · change index ≤ Cell.width (Mask.chars text.toList) at hle
    have hshort : codeSum s!"param{index}" ≤ 814 := PseudoAddress.codeSum_numbered (by omega)
    rw [hname]
    omega

theorem address?_of_entry (h : symbolTable? text = some table) {name : String}
    {entry : SymbolEntry} (hm : (name, entry) ∈ table.entries) :
    address? name entry.scope = some entry.pseudoAddress := by
  have hfits := symbolTable?_isSome.1 (Option.isSome_of_eq_some h)
  cases symbolTable?_eq_some h
  obtain ⟨candidate, hc, he⟩ := Source.exists_candidate hm
  cases he
  rw [PseudoAddress.address?_eq, if_pos ((fits_iff _).2 (hfits candidate hc))]

end

/-- The address of a name follows the formula if the exact sum of its codes is below 2³², and else
there is none. A text has a table just if each name it declares has an address, as all names of a
text of up to 18,714 bytes have. -/
theorem addresses_symbolTable (text : String) :
    (∀ name scope, PseudoAddress.address? name scope = none ↔
      2 ^ 32 ≤ PseudoAddress.codeSum name) ∧
    (∀ name scope address, PseudoAddress.address? name scope = some address →
      (scope = .global → ∃ digits,
        IsHexadecimal (PseudoAddress.codeSum name % 65535 + 4096) digits ∧
          address = "0x" ++ String.ofList digits) ∧
      (scope ≠ .global → address = "SP+" ++ toString (PseudoAddress.codeSum name % 128))) ∧
    ((symbolTable? text).isSome ↔
      ∀ candidate ∈ Candidate.collect (Source.ofString text).view,
        PseudoAddress.codeSum candidate.name < 2 ^ 32) ∧
    (text.utf8ByteSize ≤ 18714 → (symbolTable? text).isSome) ∧
    ∀ table, symbolTable? text = some table → ∀ name entry, (name, entry) ∈ table.entries →
      PseudoAddress.address? name entry.scope = some entry.pseudoAddress := by
  refine ⟨PseudoAddress.address?_eq_none_iff, ?_, symbolTable?_isSome, ?_, ?_⟩
  · intro name scope address
    exact PseudoAddress.address?_formula
  · intro hs
    apply symbolTable?_isSome.2
    intro candidate
    exact codeSum_lt_of_size hs
  · intro table ht name entry
    exact address?_of_entry ht

/-- A text that declares an integer of the given name. -/
def declaring (name : List Char) : List Char :=
  "int ".toList ++ (name ++ [';'])

theorem layout_declaring (name : List Char) : Cell.layout (declaring name) =
    ⟨'i'.val.toUInt8, some 'i'⟩ :: Cell.layout ("nt ".toList ++ (name ++ [';'])) :=
  Cell.layout_cons_ascii (by decide) _

theorem functions_declaring (name : List Char) : ∀ function ∈ FunctionDefinition.findAll
    (Slice.laid 0 (declaring name)), function.extent.contains 0 = false := by
  intro function hf
  obtain ⟨head, hh, hr⟩ := FunctionDefinition.mem_findAll.1 hf
  obtain ⟨_, cell, rest, _, _, _, ht, hbyte, _⟩ := FunctionDefinition.read?_opening hr
  have htail := ht.trans (Slice.isTail_of_mem_heads hh)
  rw [Bool.eq_false_iff]
  intro hin
  simp only [Extent.contains, Bool.and_eq_true, decide_eq_true_eq] at hin
  have hstart : function.opening = 0 := Nat.le_zero.1 hin.1
  have hwhole := congrArg Slice.cells (htail.eq (Slice.IsTail.refl _) hstart)
  rw [Slice.laid, layout_declaring] at hwhole
  cases hwhole
  revert hbyte
  decide

theorem Program.isQuote_of_isWord {c : Char} (h : CharClass.isWord c) :
    isQuote c = false ∧ c ≠ '/' := by
  have hne {d : Char} (hd : CharClass.isWord d = false) : c ≠ d := by
    rintro rfl
    rw [hd] at h
    cases h
  constructor
  · simp only [isQuote, List.contains_eq_mem, decide_eq_false_iff_not, List.mem_cons,
      List.not_mem_nil, or_false, not_or]
    exact ⟨hne (by decide), hne (by decide), hne (by decide), hne (by decide)⟩
  · exact hne (by decide)

section

open Slice (laid)
open Cell (width layout)

variable {c : Char} {word : List Char} (hc : CharClass.isWordStart c)
  (hw : ∀ d ∈ word, CharClass.isWord d)
include hc hw

theorem isWord_of_mem_name : ∀ d ∈ c :: word, CharClass.isWord d :=
  List.forall_mem_cons.2 ⟨CharClass.isWord_of_isWordStart hc, hw⟩

theorem chars_declaring : Mask.chars (declaring (c :: word)) = declaring (c :: word) := by
  have hplain : ∀ d ∈ declaring (c :: word), Program.isQuote d = false ∧ d ≠ '/' := by
    intro d hd
    have hint : "int ".toList.all (fun d => Program.isQuote d = false ∧ d ≠ '/') := by decide
    rcases List.mem_append.1 hd with hd | hd
    · exact of_decide_eq_true (List.all_eq_true.1 hint d hd)
    · rcases List.mem_append.1 hd with hd | hd
      · exact Program.isQuote_of_isWord (isWord_of_mem_name hc hw d hd)
      · rw [List.mem_singleton.1 hd]
        decide
  have hnil : Program.IsVerbatim [] := ⟨fun d hd => absurd hd List.not_mem_nil, rfl⟩
  have hverbatim := Program.keeps_of_forall hplain [] hnil
  rw [List.append_nil] at hverbatim
  exact hverbatim.runFrom true

theorem readWords_declaring : Declarator.readWords 1 0 none 1
    (layout ("nt".toList ++ (' ' :: (c :: (word ++ [';']))))) = (2, 4, 4 + width (c :: word)) := by
  have hname := CharClass.isNameChar_of_isWordStart hc
  have hseparator : Declarator.isSeparator c = false := by
    simpa using CharClass.of_isNameChar (!Declarator.isSeparator ·) (by decide +kernel) hname
  have hwidth : width (c :: word) = 1 + width word :=
    Cell.width_cons_ascii (CharClass.ascii_of_isNameChar hname) word
  have hint : "nt".toList.all CharClass.isWord := by decide
  have hend : CharClass.isWord ';' = false ∧ Declarator.isSeparator ';' = false := by decide
  rw [Declarator.readWords_word (List.all_eq_true.1 hint), Declarator.readWords_separator
    (by decide) (by decide) (by decide), Declarator.readWords_next hc hseparator,
    Declarator.readWords_word hw, Declarator.readWords_end none (by simpa using hend.1)
    (by simpa using hend.2), hwidth, ← Nat.add_assoc]
  rfl

theorem read?_declaring (hk : Keyword.isKeyword (String.ofList (c :: word)) = false) :
    Declarator.read? (laid 0 (declaring (c :: word))) =
      some ⟨laid 0 "int ".toList, laid 4 (c :: word), laid (4 + width (c :: word)) [';']⟩ := by
  have hfour : 0 + width "int ".toList = 4 := by decide
  have htype : (laid 0 (declaring (c :: word))).toOffset (0 + width "int ".toList) =
      laid 0 "int ".toList := Slice.toOffset_laid
  have hfrom : (laid 0 (declaring (c :: word))).fromOffset (0 + width "int ".toList) =
      laid (0 + width "int ".toList) ((c :: word) ++ [';']) := Slice.fromOffset_laid
  rw [hfour] at htype hfrom
  have hname : ((laid 0 (declaring (c :: word))).fromOffset 4).toOffset (4 + width (c :: word)) =
      laid 4 (c :: word) := by
    rw [hfrom]
    exact Slice.toOffset_laid
  have hrest : (laid 0 (declaring (c :: word))).fromOffset (4 + width (c :: word)) =
      laid (4 + width (c :: word)) [';'] := by
    have happend : declaring (c :: word) = ("int ".toList ++ (c :: word)) ++ [';'] :=
      (List.append_assoc ..).symm
    have hlength : 4 + width (c :: word) = 0 + width ("int ".toList ++ (c :: word)) := by
      rw [Cell.width_append, ← Nat.add_assoc, hfour]
    rw [happend, hlength, Slice.fromOffset_laid]
  have hplain : Keyword.occursIn ((laid 0 (declaring (c :: word))).toOffset 4).text = false := by
    rw [htype, Slice.laid_text]
    decide +kernel
  have hkeyword : Keyword.isKeyword (((laid 0 (declaring (c :: word))).fromOffset 4).toOffset
      (4 + width (c :: word))).text = false := by
    rw [hname, Slice.laid_text, hk]
  have hread := Declarator.read?_words (c := 'i') (by decide) (readWords_declaring hc hw)
  rw [if_pos ⟨Nat.le_refl 2, by rw [Bool.not_eq_true']; exact hplain,
    by rw [Bool.not_eq_true']; exact hkeyword⟩] at hread
  rw [← htype, ← hname, ← hrest]
  exact hread

theorem declaration_declaring (hk : Keyword.isKeyword (String.ofList (c :: word)) = false) :
    ∃ declaration, Declaration.read? (laid 0 (declaring (c :: word))) = some declaration ∧
      declaration.start = 0 ∧ declaration.name = String.ofList (c :: word) := by
  have hequals : (laid (4 + width (c :: word)) [';']).startsWith '=' = false :=
    Slice.not_startsWith_laid (by decide) (by simp)
  have hsemicolon : (laid (4 + width (c :: word)) [';']).startsWith ';' :=
    Slice.startsWith_laid (by decide)
  have hread : Declaration.read? (laid 0 (declaring (c :: word))) =
      some (.ofDeclarator ⟨laid 0 "int ".toList, laid 4 (c :: word),
        laid (4 + width (c :: word)) [';']⟩ none (4 + width (c :: word))) := by
    rw [Declaration.read?, read?_declaring hc hw hk, Option.bind_some]
    have hafter : (laid (4 + width (c :: word)) [';']).fromOffset (Declarator.suffixEnd false none
        (laid (4 + width (c :: word)) [';']).start (laid (4 + width (c :: word)) [';']).cells) =
        laid (4 + width (c :: word)) [';'] := Slice.fromOffset_start _
    simp only [hafter, hequals, hsemicolon, Bool.false_eq_true, if_false, if_true]
    rfl
  exact ⟨_, hread, rfl, Slice.laid_text 4 (c :: word)⟩

theorem symbolTable?_declaring (hk : Keyword.isKeyword (String.ofList (c :: word)) = false)
    (hs : 2 ^ 32 ≤ PseudoAddress.codeSum (String.ofList (c :: word))) :
    symbolTable? (String.ofList (declaring (c :: word))) = none := by
  have hview : (Source.ofString (String.ofList (declaring (c :: word)))).view =
      laid 0 (declaring (c :: word)) := by
    rw [Source.view, Source.ofString, String.toList_ofList, chars_declaring hc hw]
    rfl
  have hhead : laid 0 (declaring (c :: word)) ∈
      (laid 0 (declaring (c :: word))).heads .topLevel := by
    rw [Slice.heads, laid, layout_declaring, Delimiter.headsFrom_head (by decide)]
    exact List.mem_cons_self
  obtain ⟨declaration, hread, hstart, hname⟩ := declaration_declaring hc hw hk
  have houtside : ∀ function ∈ FunctionDefinition.findAll (laid 0 (declaring (c :: word))),
      function.extent.contains declaration.start = false := by
    rw [hstart]
    exact functions_declaring (c :: word)
  have hglobal := Declaration.mem_findGlobals.2 ⟨⟨_, hhead, hread⟩, houtside⟩
  have hcandidate := Candidate.mem_collect.2 (.inr (.inl ⟨_, hglobal, rfl⟩))
  rw [← Option.not_isSome_iff_eq_none, symbolTable?_isSome, hview]
  intro hfits
  have hlt := hfits _ hcandidate
  rw [Candidate.ofVariable, hname] at hlt
  exact absurd hs (Nat.not_le.2 hlt)

end

theorem Keyword.length_le {word : String} (h : isKeyword word) : word.toList.length ≤ 8 := by
  have hall : ∀ keyword ∈ all, keyword.toList.length ≤ 8 := by decide
  exact hall word (List.contains_iff_mem.1 h)

/-- The declaration of a letter with 4,679 variation selectors, in 18,722 bytes. -/
theorem symbolTable?_selectors : symbolTable?
    (String.ofList (declaring ('a' :: List.replicate 4679 (Char.ofNat 0xE01EF)))) = none := by
  apply symbolTable?_declaring
  · decide
  · intro d hd
    rw [List.eq_of_mem_replicate hd]
    decide +kernel
  · rw [Bool.eq_false_iff]
    intro hk
    have hle := Keyword.length_le hk
    rw [String.toList_ofList, List.length_cons, List.length_replicate] at hle
    omega
  · rw [PseudoAddress.codeSum_eq_sum, String.toList_ofList, List.map_cons, List.map_replicate,
      List.sum_cons, List.sum_replicate_nat]
    decide

end CodeOutline
