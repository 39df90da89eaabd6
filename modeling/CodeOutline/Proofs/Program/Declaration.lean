import CodeOutline.Proofs.Program.Print
import CodeOutline.Proofs.Shape.Declarator
import CodeOutline.Shape.Function

namespace CodeOutline.Program

open Cell (layout width)
open Declarator (readWords isSeparator)
open Slice (laid laid_start laid_text)

variable {count start position : Nat} {rest : List Char} {d : Char}

theorem Mark.spec (mark : Mark) : mark.char.toNat < 128 ∧ CharClass.isWord mark.char = false ∧
    isSeparator mark.char ∧ Keyword.isBreak mark.char := by
  rcases mark with ⟨gap⟩ | _
  · cases gap <;> decide
  · decide

theorem Mark.isSpace_char (mark : Mark) : CharClass.isSpace mark.char = !mark.isStar := by
  rcases mark with ⟨gap⟩ | _
  · cases gap <;> rfl
  · rfl

theorem Joint.readWords (joint : Joint) (word : Identifier) :
    readWords count start none position (layout (joint.print ++ (word.chars ++ rest))) =
      readWords (count + 1) (position + width joint.print) none
        (position + width (joint.print ++ word.chars)) (layout rest) := by
  obtain ⟨ha, hw, hs, _⟩ := joint.first.spec
  obtain ⟨c, others, he, hc, ho⟩ := word.eq_cons
  have hp : joint.print = joint.first.char :: joint.others.map Mark.char := rfl
  have hn := CharClass.isNameChar_of_isWordStart hc
  have hsep : isSeparator c = false := by
    have h := Identifier.forall_mem (!isSeparator ·) (by decide +kernel) word c
      (by rw [he]; exact List.mem_cons_self)
    simpa using h
  have hm : ∀ c ∈ joint.others.map Mark.char, isSeparator c := by
    intro c hc
    obtain ⟨mark, _, rfl⟩ := List.mem_map.1 hc
    exact mark.spec.2.2.1
  rw [hp, List.cons_append, Declarator.readWords_separator ha hw hs,
    Declarator.readWords_separators hm, he, List.cons_append,
    Declarator.readWords_next hc hsep,
    Declarator.readWords_word fun c h => CharClass.isWord_of_isNameChar (ho c h)]
  simp only [Cell.width_append, Cell.width_cons_ascii ha,
    Cell.width_cons_ascii (CharClass.ascii_of_isNameChar hn), Nat.add_assoc]

theorem Gaps.readWords (gaps : Gaps) (hw : CharClass.isWord d = false)
    (hs : isSeparator d = false) :
    readWords count start none position (layout (gaps.print ++ d :: rest)) =
      (count, start, position) := by
  cases gaps with
  | nil =>
    rw [Gaps.print, List.map_nil, List.nil_append]
    exact Declarator.readWords_end none (by simpa using hw) (by simpa using hs)
  | cons gap gaps =>
    obtain ⟨ha, hgw, hgs, _⟩ := (Mark.blank gap).spec
    have hp : Gaps.print (gap :: gaps) = (Mark.blank gap).char :: Gaps.print gaps := rfl
    rw [hp, List.cons_append, Declarator.readWords_separator ha hgw hgs,
      Declarator.readWords_separators (Gaps.forall_mem (P := fun c => isSeparator c) rfl rfl gaps)]
    exact Declarator.readWords_end (some _) (by simpa using hw) (by simpa using hs)

namespace TypeName

theorem readWords_tail (count start position : Nat) (rest : List Char)
    (more : List (Joint × Identifier)) : ∃ start',
      readWords count start none position (layout (tail more ++ rest)) =
        readWords (count + more.length) start' none (position + width (tail more))
          (layout rest) := by
  induction more generalizing count start position with
  | nil => exact ⟨start, rfl⟩
  | cons unit more ih =>
    obtain ⟨joint, word⟩ := unit
    obtain ⟨start', h⟩ := ih (count + 1) (position + width joint.print)
      (position + width (joint.print ++ word.chars))
    refine ⟨start', ?_⟩
    have hs : tail ((joint, word) :: more) = joint.print ++ (word.chars ++ tail more) := by
      rw [tail, List.flatMap_cons, List.append_assoc]
      rfl
    rw [hs, List.append_assoc, List.append_assoc, joint.readWords, h]
    simp only [List.length_cons, Cell.width_append, Nat.add_assoc, Nat.add_comm 1]

theorem not_occursIn_marks (marks : List Mark) :
    Keyword.occursIn (String.ofList (marks.map Mark.char ++ rest)) =
      Keyword.occursIn (String.ofList rest) := by
  induction marks with
  | nil => rfl
  | cons mark marks ih =>
    rw [List.map_cons, List.cons_append, Keyword.occursIn_break mark.spec.2.2.2, ih]

theorem not_occursIn_word (word : Identifier) (joint : Joint) (rest : List Char) :
    Keyword.occursIn (String.ofList (word.chars ++ (joint.print ++ rest))) =
      Keyword.occursIn (String.ofList rest) := by
  have hp : joint.print = joint.first.char :: joint.others.map Mark.char := rfl
  have hk := word.not_isKeyword
  rw [Identifier.text] at hk
  rw [hp, List.cons_append, Keyword.occursIn_word _ joint.first.spec.2.2.2, hk,
    not_occursIn_marks, Bool.false_or]
  exact fun c hc => Keyword.isBreak_of_isNameChar (word.isNameChar c hc)

theorem not_occursIn (type : TypeName) : Keyword.occursIn (String.ofList type.print) = false := by
  have hnil : Keyword.occursIn (String.ofList []) = false := by decide
  obtain ⟨head, more, last⟩ := type
  induction more generalizing head with
  | nil =>
    have h := not_occursIn_word head last []
    rw [List.append_nil] at h
    exact h.trans hnil
  | cons unit more ih =>
    obtain ⟨joint, word⟩ := unit
    have h := not_occursIn_word head joint (TypeName.print ⟨word, more, last⟩)
    rw [ih word] at h
    simpa only [print, tail, List.flatMap_cons, List.append_assoc] using h

theorem eq_cons (type : TypeName) : ∃ c word, type.head.chars = c :: word ∧
    type.print = c :: (word ++ (tail type.more ++ type.last.print)) ∧ CharClass.isWordStart c ∧
    ∀ d ∈ word, CharClass.isNameChar d := by
  obtain ⟨c, word, he, hc, hw⟩ := type.head.eq_cons
  exact ⟨c, word, he, by rw [print, he]; rfl, hc, hw⟩

/-- The last word read is the declared name. -/
theorem readWords_print (type : TypeName) (name : Identifier) (position : Nat)
    (rest : List Char) {c : Char} {word : List Char} (he : type.head.chars = c :: word) :
    readWords 1 position none (position + 1)
        (layout (word ++ (tail type.more ++ (type.last.print ++ (name.chars ++ rest))))) =
      readWords (type.more.length + 2) (position + width type.print) none
        (position + width (type.print ++ name.chars)) (layout rest) := by
  have hn := type.head.isNameChar
  rw [he] at hn
  have hwidth : width type.head.chars = 1 + width word := by
    rw [he, Cell.width_cons_ascii (CharClass.ascii_of_isNameChar (hn c List.mem_cons_self))]
  obtain ⟨start', h⟩ := readWords_tail 1 position (position + 1 + width word)
    (type.last.print ++ (name.chars ++ rest)) type.more
  have hcount : 1 + type.more.length + 1 = type.more.length + 2 := by omega
  have hstart : position + 1 + width word + width (tail type.more) + width type.last.print =
      position + width type.print := by
    simp only [print, Cell.width_append, hwidth]
    omega
  have hstop : position + 1 + width word + width (tail type.more) +
      width (type.last.print ++ name.chars) = position + width (type.print ++ name.chars) := by
    simp only [print, Cell.width_append, hwidth]
    omega
  rw [Declarator.readWords_word fun c hc =>
      CharClass.isWord_of_isNameChar (hn c (List.mem_cons_of_mem _ hc)),
    h, type.last.readWords, hcount, hstart, hstop]

theorem read?_laid (type : TypeName) (name : Identifier) (gaps : Gaps)
    (hw : CharClass.isWord d = false) (hs : isSeparator d = false) :
    Declarator.read? (laid position (type.print ++ (name.chars ++ (gaps.print ++ d :: rest)))) =
      some ⟨laid position type.print, laid (position + width type.print) name.chars,
        laid (position + width (type.print ++ name.chars)) (gaps.print ++ d :: rest)⟩ := by
  obtain ⟨c, word, he, hp, hc, hword⟩ := type.eq_cons
  have hread := type.readWords_print name position (gaps.print ++ d :: rest) he
  rw [gaps.readWords hw hs] at hread
  have htext : type.print ++ (name.chars ++ (gaps.print ++ d :: rest)) =
      c :: (word ++ (tail type.more ++ (type.last.print ++ (name.chars ++
        (gaps.print ++ d :: rest))))) := by
    rw [hp]
    simp only [List.cons_append, List.append_assoc]
  have hname : (laid position (type.print ++ (name.chars ++ (gaps.print ++ d :: rest)))).fromOffset
      (position + width (type.print ++ name.chars)) =
      laid (position + width (type.print ++ name.chars)) (gaps.print ++ d :: rest) := by
    rw [← List.append_assoc]
    exact Slice.fromOffset_laid
  have hk := name.not_isKeyword
  rw [Identifier.text] at hk
  rw [htext, Declarator.read?_words hc hread, ← htext, Slice.toOffset_laid, Slice.fromOffset_laid,
    hname, Cell.width_append, ← Nat.add_assoc, Slice.toOffset_laid, Slice.laid_text,
    Slice.laid_text, type.not_occursIn, hk, if_pos]
  exact ⟨Nat.le_add_left _ _, rfl, rfl⟩

theorem getLast?_words (type : TypeName) :
    ∀ c ∈ (type.head.chars ++ tail type.more).getLast?, CharClass.isSpace c = false := by
  have hw (word : Identifier) : ∀ c ∈ word.chars.getLast?, CharClass.isSpace c = false := by
    intro c hc
    have h := Identifier.forall_mem (!CharClass.isSpace ·) (by decide +kernel) word c
      (List.mem_of_getLast? hc)
    simpa using h
  obtain ⟨head, more, last⟩ := type
  rcases List.eq_nil_or_concat more with rfl | ⟨front, ⟨joint, word⟩, rfl⟩
  · simpa [tail] using hw head
  · obtain ⟨d, others, he, _, _⟩ := word.eq_cons
    have hl := hw word
    intro c hc
    simp only [tail, List.concat_eq_append, List.flatMap_append, List.flatMap_singleton,
      List.getLast?_append, he, List.getLast?_cons, Option.some_or] at hc hl
    exact hl c hc

theorem trimRight_last (joint : Joint) : Text.trimRight joint.print = joint.kept := by
  have h : CharClass.isSpace ∘ Mark.char = (!Mark.isStar ·) := funext Mark.isSpace_char
  rw [Text.trimRight, Joint.print, ← List.map_reverse, List.dropWhile_map, h, ← List.map_reverse]
  rfl

theorem trim_print (type : TypeName) : Text.trim (String.ofList type.print) = type.text := by
  have hh : ∀ c ∈ type.print.head?, CharClass.isSpace c = false := by
    intro c hc
    have h := Identifier.forall_head (!CharClass.isSpace ·) (by decide +kernel)
      type.head c hc
    simpa using h
  have hp : type.print = (type.head.chars ++ tail type.more) ++ type.last.print :=
    (List.append_assoc ..).symm
  rw [Text.trim, String.toList_ofList, Text.trimLeft_of_head hh, hp,
    Text.trimRight_append type.getLast?_words, trimRight_last, List.append_assoc]
  rfl

end TypeName

/-- What is recognised of a variable that is printed at the position. -/
def Variable.declaration (position : Nat) (declared : Variable) : Declaration where
  start := position
  declaredType := declared.type.text
  name := declared.name.text
  nameOffset := position + width declared.type.print
  initializer := declared.initializer.map fun phrase =>
    laid (position + width (declared.type.print ++ (declared.name.chars ++ declared.gaps.print)) + 1)
      phrase.print
  stop := position + width declared.print

theorem Gaps.suffixEnd (gaps : Gaps) (multiline : Bool) (position : Nat) (rest : List Char)
    (ha : d.toNat < 128) (hd : CharClass.isSpace d = false) (hb : d ≠ '[') :
    Declarator.suffixEnd multiline none position (layout (gaps.print ++ d :: rest)) =
      position + width gaps.print := by
  induction gaps generalizing position with
  | nil =>
    have hbr : (⟨d.val.toUInt8, some d⟩ : Cell).isAscii '[' = false :=
      Cell.isAscii_of_mem_ofChar (c := d) (by rw [Cell.ofChar_ascii ha]; exact List.mem_cons_self)
        (by decide) hb
    rw [Gaps.print, List.map_nil, List.nil_append, Cell.layout_cons_ascii ha, Declarator.suffixEnd]
    simp only [hbr, Cell.within, hd, Bool.false_eq_true, if_false]
    rfl
  | cons gap gaps ih =>
    have hg : gap.char.toNat < 128 ∧ CharClass.isSpace gap.char ∧
        (⟨gap.char.val.toUInt8, some gap.char⟩ : Cell).isAscii '[' = false := by
      cases gap <;> decide
    have hp : Gaps.print (gap :: gaps) = gap.char :: Gaps.print gaps := rfl
    rw [hp, List.cons_append, Cell.layout_cons_ascii hg.1, Declarator.suffixEnd]
    simp only [hg.2.2, Cell.within, hg.2.1, Bool.false_eq_true, if_false, if_true, ih,
      Cell.width_cons_ascii hg.1]
    omega

theorem read?_name (position : Nat) (type : TypeName) (name : Identifier) (gaps : Gaps) (d : Char)
    (rest : List Char) (ha : d.toNat < 128)
    (hw : CharClass.isWord d = false) (hs : isSeparator d = false) (hb : d ≠ '[') :
    let declarator : Declarator := ⟨laid position type.print,
      laid (position + width type.print) name.chars,
      laid (position + width (type.print ++ name.chars)) (gaps.print ++ d :: rest)⟩
    let after := laid (position + width (type.print ++ (name.chars ++ gaps.print))) (d :: rest)
    Declaration.read? (laid position (type.print ++ (name.chars ++ (gaps.print ++ d :: rest)))) =
      if after.startsWith '=' then
        ((after.drop 1).find? 0x3B).map fun stop =>
          Declaration.ofDeclarator declarator (some ((after.drop 1).toOffset stop)) stop
      else if after.startsWith ';' then
        some (Declaration.ofDeclarator declarator none after.start)
      else none := by
  intro declarator after
  have hd : CharClass.isSpace d = false := by
    simp only [isSeparator, Bool.or_eq_false_iff] at hs
    exact hs.1
  have hafter : declarator.rest.fromOffset
      (Declarator.suffixEnd false none declarator.rest.start declarator.rest.cells) = after := by
    have h := gaps.suffixEnd false (position + width (type.print ++ name.chars)) rest ha hd hb
    have hp : position + width (type.print ++ name.chars) + width gaps.print =
        position + width (type.print ++ (name.chars ++ gaps.print)) := by
      simp only [Cell.width_append, Nat.add_assoc]
    refine (congrArg declarator.rest.fromOffset h).trans (Slice.fromOffset_laid.trans ?_)
    rw [hp]
  rw [Declaration.read?, type.read?_laid name gaps hw hs, Option.bind_some]
  simp only
  rw [hafter]

theorem Variable.read?_laid (declared : Variable) :
    Declaration.read? (laid position (declared.print ++ ';' :: rest)) =
      some (declared.declaration position) := by
  obtain ⟨type, name, gaps, initializer⟩ := declared
  have htype := type.trim_print
  cases initializer with
  | none =>
    have hp : Variable.print ⟨type, name, gaps, none⟩ =
        type.print ++ (name.chars ++ gaps.print) := by
      simp only [Variable.print, printInitializer, List.append_nil]
    have hr := read?_name position type name gaps ';' rest (by decide) rfl rfl (by decide)
    simp only at hr
    rw [hp, List.append_assoc, List.append_assoc, hr,
      Slice.not_startsWith_laid (by decide) (by simp), Slice.startsWith_laid (by decide)]
    simp only [Bool.false_eq_true, if_false, if_true, Declaration.ofDeclarator, laid_start,
      laid_text, htype, Variable.declaration, hp]
    rfl
  | some phrase =>
    have hp : Variable.print ⟨type, name, gaps, some phrase⟩ =
        type.print ++ (name.chars ++ (gaps.print ++ '=' :: phrase.print)) := rfl
    have hr := read?_name position type name gaps '=' (phrase.print ++ ';' :: rest) (by decide) rfl
      rfl (by decide)
    simp only at hr
    rw [hp]
    simp only [List.append_assoc, List.cons_append]
    rw [hr, Slice.startsWith_laid (by decide), Slice.drop_one_laid (by decide),
      Slice.find?_laid phrase.isPlain]
    simp only [if_true, Option.map_some, Slice.toOffset_laid, Declaration.ofDeclarator, laid_start,
      laid_text, htype, Variable.declaration, hp]
    have hw : position + width (type.print ++ (name.chars ++ gaps.print)) + 1 + width phrase.print =
        position + width (type.print ++ (name.chars ++ (gaps.print ++ '=' :: phrase.print))) := by
      simp only [Cell.width_append, Cell.width_cons_ascii (c := '=') (by decide)]
      omega
    rw [hw]
    rfl

end CodeOutline.Program
