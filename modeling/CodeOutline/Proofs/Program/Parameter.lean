import CodeOutline.Proofs.Program.Declaration
import CodeOutline.Shape.Function

namespace CodeOutline

open Cell (layout width)
open Slice (laid laid_start laid_text laidAll)
open Delimiter (IsNested IsPlain joined)

namespace Declarator

theorem suffixEnd_lt (multiline : Bool) (position : Nat) (cells : List Cell)
    (h : ∀ cell ∈ cells, cell.isAscii '[' = false)
    (hs : ∃ cell ∈ cells, cell.within CharClass.isSpace = false) :
    suffixEnd multiline none position cells < position + cells.length := by
  induction cells generalizing position with
  | nil =>
    obtain ⟨cell, hc, _⟩ := hs
    cases hc
  | cons cell cells ih =>
    rw [suffixEnd, List.length_cons]
    simp only [h cell List.mem_cons_self, Bool.false_eq_true, if_false]
    split
    · next hw =>
      have hrest : ∃ cell ∈ cells, cell.within CharClass.isSpace = false := by
        obtain ⟨other, ho, hos⟩ := hs
        rcases List.mem_cons.1 ho with rfl | ho
        · rw [hw] at hos
          cases hos
        · exact ⟨other, ho, hos⟩
      have := ih (position + 1) (fun cell hm => h cell (List.mem_cons_of_mem _ hm)) hrest
      omega
    · omega

theorem suffixEnd_laid_lt {front word : List Char} (multiline : Bool) (position : Nat)
    (hf : ∀ c ∈ front, c ≠ '[') (hn : CharClass.IsName word) :
    suffixEnd multiline none position (layout (front ++ word)) <
      position + width (front ++ word) := by
  obtain ⟨c, rest, rfl, hc, hr⟩ := hn
  have hname := CharClass.isNameChar_of_isWordStart hc
  have hchars : ∀ d ∈ front ++ c :: rest, d ≠ '[' := by
    intro d hd
    rcases List.mem_append.1 hd with hd | hd
    · exact hf d hd
    · have hd : CharClass.isNameChar d := by
        rcases List.mem_cons.1 hd with rfl | hd
        · exact hname
        · exact hr d hd
      rintro rfl
      cases hd
  apply suffixEnd_lt
  · exact Cell.forall_mem_layout fun d hd _ hm =>
      Cell.isAscii_of_mem_ofChar hm (by decide) (hchars d hd)
  · have hs := CharClass.of_isNameChar (!CharClass.isSpace ·) (by decide +kernel) hname
    refine ⟨⟨c.val.toUInt8, some c⟩, ?_, by simpa [Cell.within] using hs⟩
    rw [Cell.layout_append, Cell.layout_cons_ascii (CharClass.ascii_of_isNameChar hname)]
    exact List.mem_append_right _ List.mem_cons_self

end Declarator

namespace Parameter

open CharClass (IsName isWord isWordStart)

variable {position : Nat} {name : List Char}

theorem name?_next {cell : Cell} {rest : List Cell}
    (h : ∀ word after, (Slice.mk position (cell :: rest)).word? isWord = some (word, after) →
      Declarator.suffixEnd true none after.start after.cells ≠ after.stop) :
    name? position (cell :: rest) = name? (position + 1) rest := by
  rw [name?]
  split
  · next word after hw => rw [if_neg (h word after hw)]
  · rfl

theorem exists_break {c : Char} {front : List Char} (hc : isWord c)
    (hl : ∀ d ∈ (c :: front).getLast?, isWord d = false) : ∃ word d others,
    front = word ++ d :: others ∧ (∀ e ∈ word, isWord e) ∧ isWord d = false := by
  have hlast : ∃ d ∈ front, (!isWord d) = true := by
    cases front with
    | nil =>
      rw [hl c rfl] at hc
      cases hc
    | cons e front =>
      have h := List.getLast?_eq_some_getLast (List.cons_ne_nil e front)
      refine ⟨_, List.mem_of_getLast? h, ?_⟩
      rw [hl _ (by rw [List.getLast?_cons_cons]; exact h)]
      rfl
  obtain ⟨d, hd⟩ := Option.isSome_iff_exists.1 (List.find?_isSome.2 hlast)
  obtain ⟨hb, word, others, he, hw⟩ := List.find?_eq_some_iff_append.1 hd
  exact ⟨word, d, others, he, fun e hm => by simpa using hw e hm, by simpa using hb⟩

theorem name?_skip (hn : IsName name) (front : List Char) (position : Nat)
    (ha : ∀ c ∈ front, c.toNat < 128 ∧ c ≠ '[')
    (hl : ∀ c ∈ front.getLast?, isWord c = false) :
    name? position (layout (front ++ name)) = name? (position + width front) (layout name) := by
  induction front generalizing position with
  | nil => rfl
  | cons c front ih =>
    have hc := (ha c List.mem_cons_self).1
    have hrest := ih (position + 1) (fun d hd => ha d (List.mem_cons_of_mem _ hd)) (by
      intro d hd
      cases front with
      | nil => cases hd
      | cons e front => exact hl d (by rw [List.getLast?_cons_cons]; exact hd))
    rw [Cell.width_cons_ascii hc, ← Nat.add_assoc, ← hrest, List.cons_append,
      Cell.layout_cons_ascii hc]
    apply name?_next
    rw [← Cell.layout_cons_ascii hc]
    intro read after hw
    by_cases hs : isWordStart c
    · have hword := CharClass.isWord_of_isWordStart hs
      obtain ⟨word, d, others, rfl, hin, hd⟩ := exists_break hword hl
      have hread : (laid position (c :: (word ++ d :: (others ++ name)))).word? isWord =
          some (laid position (c :: word), laid (position + width (c :: word))
            (d :: others ++ name)) := by
        apply Slice.word?_laid hs hin
        intro e he
        cases he
        exact hd
      rw [List.append_assoc, List.cons_append] at hw
      cases hread.symm.trans hw
      refine Nat.ne_of_lt (Declarator.suffixEnd_laid_lt true _ (fun e he => ?_) hn)
      exact (ha e (List.mem_cons_of_mem _ (List.mem_append_right _ he))).2
    · have hnone : (laid position (c :: (front ++ name))).word? isWord = none := by
        apply Slice.word?_laid_none
        intro e he
        cases he
        exact Bool.not_eq_true _ ▸ hs
      cases hnone.symm.trans hw

theorem name?_last (hn : IsName name) : name? position (layout name) = some (laid position name) := by
  have hread : (laid position (name ++ [])).word? isWord =
      some (laid position name, laid (position + width name) []) := by
    apply Slice.word?_name hn fun d hd => CharClass.isWord_of_isNameChar hd
    intro d hd
    cases hd
  obtain ⟨c, rest, rfl, hc, _⟩ := hn
  have ha := CharClass.ascii_of_isNameChar (CharClass.isNameChar_of_isWordStart hc)
  rw [List.append_nil, laid, Cell.layout_cons_ascii ha] at hread
  rw [Cell.layout_cons_ascii ha, name?]
  have hend : Declarator.suffixEnd true none (laid (position + width (c :: rest)) []).start
      (laid (position + width (c :: rest)) []).cells =
        (laid (position + width (c :: rest)) []).stop := rfl
  simp only [hread]
  rw [if_pos hend, laid, Cell.layout_cons_ascii ha]

end Parameter

namespace Program

variable {position : Nat} {rest : List Char}

theorem Joint.print_eq (joint : Joint) : ∃ gaps, joint.print = joint.kept ++ gaps ∧
    (∀ c ∈ gaps, CharClass.isAsciiSpace c) ∧ ∀ c ∈ joint.kept.getLast?, c = '*' := by
  let marks := joint.first :: joint.others
  have hm : marks = (marks.reverse.dropWhile (!·.isStar)).reverse ++
      (marks.reverse.takeWhile (!·.isStar)).reverse := by
    rw [← List.reverse_append, List.takeWhile_append_dropWhile, List.reverse_reverse]
  refine ⟨(marks.reverse.takeWhile (!·.isStar)).reverse.map Mark.char, ?_, ?_, ?_⟩
  · rw [kept, ← List.map_append, ← hm]
    rfl
  · intro c hc
    obtain ⟨mark, hmark, rfl⟩ := List.mem_map.1 hc
    have hs := List.all_eq_true.1 List.all_takeWhile mark (List.mem_reverse.1 hmark)
    rcases mark with ⟨gap⟩ | _
    · cases gap <;> rfl
    · cases hs
  · intro c hc
    rw [kept, List.getLast?_map, List.getLast?_reverse] at hc
    obtain ⟨mark, hmark, rfl⟩ := Option.map_eq_some_iff.1 hc
    have hs := List.head?_dropWhile_not (!·.isStar) marks.reverse
    rw [hmark] at hs
    rcases mark with ⟨gap⟩ | _
    · cases hs
    · rfl

theorem TypeName.trim_laid (type : TypeName) (position : Nat) :
    (laid position type.print).trim.text = type.text := by
  obtain ⟨gaps, hp, hg, hk⟩ := type.last.print_eq
  have ht : type.print =
      [] ++ ((type.head.chars ++ (tail type.more ++ type.last.kept)) ++ gaps) := by
    rw [print, hp]
    simp only [List.append_assoc, List.nil_append]
  rw [ht, Slice.trim_laid (fun c hc => absurd hc List.not_mem_nil) hg, laid_text, TypeName.text]
  · intro c hc
    exact type.head.isAsciiSpace_head c hc
  · intro c hc
    rw [← List.append_assoc, List.getLast?_append] at hc
    cases hl : type.last.kept.getLast? with
    | none =>
      rw [hl] at hc
      have hs := type.getLast?_words c hc
      cases ha : CharClass.isAsciiSpace c with
      | false => rfl
      | true =>
        rw [CharClass.isSpace_of_isAsciiSpace ha] at hs
        cases hs
    | some d =>
      rw [hl] at hc
      cases hc
      rw [hk c hl]
      rfl
  · exact List.append_ne_nil_of_left_ne_nil type.head.ne_nil _

theorem TypeName.getLast?_print (type : TypeName) :
    ∀ c ∈ type.print.getLast?, CharClass.isWord c = false := by
  intro c hc
  have hm : c ∈ type.last.print := by
    rw [print, List.getLast?_append, List.getLast?_append] at hc
    have hp : type.last.print = type.last.first.char :: type.last.others.map Mark.char := rfl
    rw [hp, List.getLast?_cons] at hc
    rw [hp]
    apply List.mem_of_getLast?
    rw [List.getLast?_cons]
    exact hc
  obtain ⟨mark, _, rfl⟩ := List.mem_map.1 hm
  exact mark.spec.2.1

theorem TypeName.forall_mem {P : Char → Prop} (hn : ∀ c, CharClass.isNameChar c → P c)
    (hm : ∀ mark : Mark, P mark.char) (type : TypeName) : ∀ c ∈ type.print, P c := by
  have hj (joint : Joint) : ∀ c ∈ joint.print, P c := by
    intro c hc
    obtain ⟨mark, _, rfl⟩ := List.mem_map.1 hc
    exact hm mark
  intro c hc
  rcases List.mem_append.1 hc with hc | hc
  · exact hn c (type.head.isNameChar c hc)
  · rcases List.mem_append.1 hc with hc | hc
    · obtain ⟨⟨joint, word⟩, _, hc⟩ := List.mem_flatMap.1 hc
      rcases List.mem_append.1 hc with hc | hc
      · exact hj joint c hc
      · exact hn c (word.isNameChar c hc)
    · exact hj type.last c hc

def Formal.parameter (position : Nat) (formal : Formal) : Parameter where
  name := formal.name.text
  declaredType := formal.type.text
  offset := position + width (formal.before.print ++ formal.type.print)

theorem Formal.trim_laid (formal : Formal) (position : Nat) :
    (laid position formal.print).trim =
      laid (position + width formal.before.print) (formal.type.print ++ formal.name.chars) := by
  have hp : formal.print = formal.before.print ++
      ((formal.type.print ++ formal.name.chars) ++ formal.after.print) := by
    rw [print, List.append_assoc]
  rw [hp, Slice.trim_laid formal.before.isAsciiSpace formal.after.isAsciiSpace]
  · intro c hc
    rw [TypeName.print, List.append_assoc] at hc
    exact formal.type.head.isAsciiSpace_head c hc
  · rw [getLast?_append_of_ne_nil _ formal.name.ne_nil]
    exact formal.name.isAsciiSpace_last
  · exact List.append_ne_nil_of_right_ne_nil _ formal.name.ne_nil

theorem Formal.isVacant_laid (formal : Formal) (position : Nat) :
    Parameter.isVacant (laid position (formal.type.print ++ formal.name.chars)) = false := by
  have hm : formal.type.last.first.char ∈ formal.type.print ++ formal.name.chars := by
    simp [TypeName.print, Joint.print]
  have hsep := formal.type.last.first.spec.2.2.1
  obtain ⟨c, word, he, hc, _⟩ := formal.type.head.eq_cons
  have hh : (formal.type.print ++ formal.name.chars).head? = some c := by
    rw [TypeName.print, he]
    rfl
  generalize formal.type.print ++ formal.name.chars = chars at hm hh
  have hne : chars ≠ [] := List.ne_nil_of_mem hm
  have hvoid : String.ofList chars ≠ "void" := by
    intro h
    have : chars = ['v', 'o', 'i', 'd'] := String.ofList_injective (h.trans rfl)
    rw [this] at hm
    simp only [List.mem_cons, List.not_mem_nil, or_false] at hm
    rcases hm with hm | hm | hm | hm <;> (rw [hm] at hsep; cases hsep)
  have hdots : String.ofList chars ≠ "..." := by
    intro h
    have : chars = ['.', '.', '.'] := String.ofList_injective (h.trans rfl)
    rw [this] at hh
    cases hh
    cases hc
  simp only [Parameter.isVacant, Slice.isEmpty_laid hne, laid_text, hvoid, hdots, decide_false,
    Bool.or_false]

theorem Formal.ofEntry (formal : Formal) (index position : Nat) :
    Parameter.ofEntry index (laid (position + width formal.before.print)
      (formal.type.print ++ formal.name.chars)) = formal.parameter position := by
  have hname : Parameter.name? (position + width formal.before.print)
      (layout (formal.type.print ++ formal.name.chars)) =
      some (laid (position + width formal.before.print + width formal.type.print)
        formal.name.chars) := by
    rw [Parameter.name?_skip formal.name.isName _ _ _ formal.type.getLast?_print]
    · exact Parameter.name?_last formal.name.isName
    · refine formal.type.forall_mem (fun c hc => ?_) fun mark => ?_
      · refine ⟨CharClass.ascii_of_isNameChar hc, ?_⟩
        rintro rfl
        cases hc
      · rcases mark with ⟨gap⟩ | _
        · cases gap <;> decide
        · decide
  have htype : (laid (position + width formal.before.print)
      (formal.type.print ++ formal.name.chars)).toOffset
        (position + width formal.before.print + width formal.type.print) =
      laid (position + width formal.before.print) formal.type.print := Slice.toOffset_laid
  have hp : position + width (formal.before.print ++ formal.type.print) =
      position + width formal.before.print + width formal.type.print := by
    rw [Cell.width_append, Nat.add_assoc]
  have hcells : (laid (position + width formal.before.print)
      (formal.type.print ++ formal.name.chars)).cells =
      layout (formal.type.print ++ formal.name.chars) := rfl
  simp only [Parameter.ofEntry, laid_start, hcells, hname, htype, laid_text, TypeName.trim_laid,
    Formal.parameter, hp, Identifier.text]

/-- What is read of parameters that are printed at the position with commas between them. -/
def parametersFrom (position : Nat) : List Formal → List Parameter
  | [] => []
  | formal :: others =>
    formal.parameter position :: parametersFrom (position + width formal.print + 1) others

theorem filterMap_laidAll (formals : List Formal) (position index : Nat) :
    ((((laidAll position (formals.map Formal.print)).map Slice.trim).zipIdx index).filterMap
      fun (entry, index) =>
        if Parameter.isVacant entry then none else some (Parameter.ofEntry index entry)) =
      parametersFrom position formals := by
  induction formals generalizing position index with
  | nil => rfl
  | cons formal others ih =>
    simp only [List.map_cons, laidAll, List.zipIdx_cons, List.filterMap_cons, formal.trim_laid,
      formal.isVacant_laid, formal.ofEntry, Bool.false_eq_true, if_false, ih, parametersFrom]

theorem filterMap_blank (gaps : Gaps) (position : Nat) :
    Parameter.readList (laid position gaps.print) = [] := by
  have hsplit : (laid position gaps.print).split 0x2C = [laid position gaps.print] :=
    Slice.split_comma position gaps.print [] (by simpa using gaps.isPlain)
  rw [Parameter.readList, hsplit, List.map_singleton, Slice.trim_laid_of_space gaps.isAsciiSpace]
  rfl

/-- White space after the opening parenthesis belongs to the first parameter, if there is one. -/
theorem Function.readList (defined : Function) (position : Nat) :
    Parameter.readList (laid position defined.list) =
      parametersFrom (position + width defined.inside.print) defined.formals := by
  rw [Function.list]
  cases defined.formals with
  | nil =>
    rw [List.map_nil, joined, List.append_nil, filterMap_blank]
    rfl
  | cons formal others =>
    let first : Formal :=
      ⟨defined.inside ++ formal.before, formal.type, formal.name, formal.after⟩
    have hp : first.print = defined.inside.print ++ formal.print := by
      simp only [first, Formal.print, Gaps.print, List.map_append, List.append_assoc]
    have hfirst : first.parameter position =
        formal.parameter (position + width defined.inside.print) := by
      simp only [Formal.parameter, first, Gaps.print, List.map_append, Cell.width_append,
        Nat.add_assoc]
    have hplain : ∀ piece ∈ (first :: others).map Formal.print, IsPlain piece := by
      intro piece hm
      obtain ⟨other, _, rfl⟩ := List.mem_map.1 hm
      exact other.isPlain
    have hsplit := Slice.split_comma position first.print (others.map Formal.print) hplain
    have hread := filterMap_laidAll (first :: others) position 0
    rw [List.map_cons] at hread
    rw [List.map_cons, ← Delimiter.joined_append, ← hp, Parameter.readList, hsplit, hread,
      parametersFrom, parametersFrom, hfirst, hp, Cell.width_append, ← Nat.add_assoc]

end Program

end CodeOutline
