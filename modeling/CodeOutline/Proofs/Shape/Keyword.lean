import CodeOutline.Proofs.Shape.Declarator
import CodeOutline.Proofs.Shape.Part

namespace CodeOutline

theorem Keyword.isBreak_of_isSeparator {c : Char} (h : Declarator.isSeparator c) : isBreak c := by
  rw [Declarator.isSeparator, Bool.or_eq_true, decide_eq_true_eq] at h
  rcases h with h | rfl
  · have hcode : c.toNat ∈ List.range' 0x09 5 ++ List.range' 0x2000 11 ++
        [0x20, 0x85, 0xA0, 0x1680, 0x2028, 0x2029, 0x202F, 0x205F, 0x3000] := by
      simp only [CharClass.isSpace, Bool.or_eq_true, Bool.and_eq_true, decide_eq_true_eq] at h
      simp only [List.mem_append, List.mem_range'_1, List.mem_cons, List.not_mem_nil, or_false]
      omega
    have hall : ∀ code ∈ List.range' 0x09 5 ++ List.range' 0x2000 11 ++
        [0x20, 0x85, 0xA0, 0x1680, 0x2028, 0x2029, 0x202F, 0x205F, 0x3000],
        isBreak (Char.ofNat code) := by
      decide +kernel
    have := hall _ hcode
    rwa [Char.ofNat_toNat] at this
  · decide

theorem Keyword.isBreak_of_isKeyword {word : String} (h : isKeyword word) :
    ∀ c ∈ word.toList, isBreak c = false := by
  have hall : (all.all fun keyword => keyword.toList.all CharClass.isNameChar) = true := by
    decide +kernel
  intro c hm
  exact isBreak_of_isNameChar
    (List.all_eq_true.1 (List.all_eq_true.1 hall word (List.contains_iff_mem.1 h)) c hm)

namespace Declarator

variable {slice name after : Slice}

/-- A keyword is no part of a type, be it the only word of a text or the first one. -/
theorem read?_of_keyword (hw : slice.word? CharClass.isWord = some (name, after))
    (hk : Keyword.isKeyword name.text) : read? slice = none := by
  rw [Option.eq_none_iff_forall_ne_some]
  intro declarator h
  obtain ⟨first, cells, count, begun, stop, hc, _, hr, ⟨hcount, hno, _⟩, _⟩ := read?_eq_some h
  obtain ⟨first', word, others, hc', rfl, _, _, hword, hhead⟩ := Slice.word?_append hw
  cases hc.symm.trans hc'
  rw [readWords_cells hword] at hr
  cases others with
  | nil =>
    cases hr
    omega
  | cons cell more =>
    rw [readWords.eq_def] at hr
    simp only [hhead cell rfl, Bool.false_eq_true,
      if_false] at hr
    split at hr
    · next hs =>
      obtain ⟨c, hchar, hsep⟩ := (Option.any_eq_true ..).1 hs
      have hle : slice.start + 1 + word.length + 1 ≤ begun := by
        have := readWords_start 1 slice.start (some (slice.start + 1 + word.length))
          (slice.start + 1 + word.length + 1) more
        rw [hr] at this
        simp only at this
        omega
      obtain ⟨length, hl⟩ : ∃ length, begun - slice.start = (first :: word).length + (length + 1) :=
        ⟨begun - slice.start - word.length - 2, by rw [List.length_cons]; omega⟩
      have htext : (slice.toOffset begun).text = String.ofList
          ((Slice.mk slice.start (first :: word)).text.toList ++
            c :: Cell.chars (more.take length)) := by
        rw [Slice.text, Slice.toOffset, Slice.take, hc, ← List.cons_append, hl,
          List.take_length_add_append, List.take_succ_cons, Cell.text, Slice.text,
          Cell.text, String.toList_ofList, Cell.chars, List.filterMap_append,
          List.filterMap_cons_some hchar]
        rfl
      have hbreak := Keyword.isBreak_of_isSeparator hsep
      rw [htext, Keyword.occursIn_word (Keyword.isBreak_of_isKeyword hk) hbreak,
        String.ofList_toList, hk] at hno
      exact absurd hno Bool.false_ne_true
    · cases hr
      omega

theorem readWords_parenthesis {count start stop position : Nat} {cells : List Cell}
    (hf : ∀ cell ∈ cells, cell.IsFaithful)
    (h : (Slice.mk position cells).skipSpace.startsWith '(') :
    (readWords count start (some stop) position cells).1 = count := by
  induction cells generalizing position with
  | nil => rfl
  | cons cell rest ih =>
    rw [readWords.eq_def]
    simp only
    by_cases hs : cell.within CharClass.isSpace
    · have hsep : cell.within isSeparator :=
        Cell.within_mono (fun _ hc => Bool.or_eq_true_iff.2 (.inl hc)) hs
      rw [if_pos hsep]
      rw [Slice.skipSpace_cons hs] at h
      exact ih (fun other hm => hf other (List.mem_cons_of_mem _ hm)) h
    · have hchar := hf cell List.mem_cons_self '(' (by decide) (Slice.isAscii_of_skipSpace hs h)
      have hsep : cell.within isSeparator = false := by
        rw [Cell.within, hchar]
        rfl
      have hstart : cell.begins CharClass.isWordStart = false := by
        rw [Cell.begins, hchar]
        rfl
      rw [hsep, hstart]
      rfl

theorem read?_of_parenthesis (hf : ∀ cell ∈ slice.cells, cell.IsFaithful)
    (hw : slice.word? CharClass.isWord = some (name, after))
    (hp : after.skipSpace.startsWith '(') : read? slice = none := by
  rw [Option.eq_none_iff_forall_ne_some]
  intro declarator h
  obtain ⟨first, cells, count, begun, stop, hc, _, hr, ⟨hcount, _⟩, _⟩ := read?_eq_some h
  obtain ⟨first', word, others, hc', _, rfl, _, hword, hhead⟩ := Slice.word?_append hw
  rw [hc'] at hf
  cases hc.symm.trans hc'
  rw [readWords_cells hword] at hr
  cases others with
  | nil =>
    cases hr
    omega
  | cons cell more =>
    have hfaithful : ∀ other ∈ cell :: more, other.IsFaithful := fun other hm =>
      hf other (List.mem_cons_of_mem _ (List.mem_append_right _ hm))
    rw [readWords.eq_def] at hr
    simp only [hhead cell rfl, Bool.false_eq_true, if_false] at hr
    by_cases hs : cell.within CharClass.isSpace
    · rw [Slice.skipSpace_cons hs] at hp
      split at hr
      · have hone : (readWords 1 slice.start (some (slice.start + 1 + word.length))
            (slice.start + 1 + word.length + 1) more).1 = 1 :=
          readWords_parenthesis
            (fun other hm => hfaithful other (List.mem_cons_of_mem _ hm)) hp
        rw [hr] at hone
        simp only at hone
        omega
      · cases hr
        omega
    · have hchar := hfaithful cell List.mem_cons_self '(' (by decide)
        (Slice.isAscii_of_skipSpace hs hp)
      have hsep : cell.begins isSeparator = false := by
        rw [Cell.begins, hchar]
        rfl
      rw [hsep] at hr
      cases hr
      omega

end Declarator

end CodeOutline
