import CodeOutline.Text.Scan
import Mathlib.Data.List.TakeWhile

namespace CodeOutline.Text

variable {test : Char → Bool} {text word taken rest : List Char}

theorem strip?_eq_some : strip? word text = some rest ↔ text = word ++ rest := by
  induction word generalizing text with
  | nil => exact Option.some_inj
  | cons c word ih =>
    cases text with
    | nil => simp only [strip?, reduceCtorEq, List.cons_append]
    | cons d text =>
      rw [strip?, List.cons_append, List.cons.injEq]
      split
      · next he => rw [ih, he, eq_self, true_and]
      · next hne => simp only [reduceCtorEq, Ne.symm hne, false_and]

theorem run?_eq_some : run? test text = some (taken, rest) ↔
    text = taken ++ rest ∧ taken ≠ [] ∧ (∀ c ∈ taken, test c) ∧
      ∀ c ∈ rest.head?, test c = false := by
  constructor
  · intro h
    cases text with
    | nil => cases h
    | cons c text =>
      rw [run?] at h
      split at h
      · next hc =>
        cases h
        refine ⟨(List.takeWhile_append_dropWhile ..).symm, ?_, ?_, ?_⟩
        · rw [List.takeWhile_cons_of_pos hc]
          exact List.cons_ne_nil _ _
        · exact fun d hd => List.mem_takeWhile_imp hd
        · intro d hd
          have hhead := List.head?_dropWhile_not test (c :: text)
          rwa [Option.mem_def.1 hd] at hhead
      · cases h
  · rintro ⟨rfl, hne, htaken, hrest⟩
    obtain ⟨c, word, rfl⟩ := List.exists_cons_of_ne_nil hne
    have hword : (c :: word ++ rest).takeWhile test = c :: word := by
      rw [List.takeWhile_append_of_pos htaken]
      cases rest with
      | nil => simp
      | cons d rest => rw [List.takeWhile_cons_of_neg (by simp [hrest d rfl]), List.append_nil]
    have hafter : (c :: word ++ rest).dropWhile test = rest := by
      have happend := List.takeWhile_append_dropWhile (p := test) (l := c :: word ++ rest)
      rw [hword] at happend
      exact List.append_cancel_left happend
    rw [List.cons_append] at hword hafter ⊢
    rw [run?, if_pos (htaken c List.mem_cons_self), hword, hafter]

theorem run?_eq_none : run? test text = none ↔ ∀ c ∈ text.head?, test c = false := by
  cases text with
  | nil => simp [run?]
  | cons c text => simp [run?]

theorem strip?_append {stop : Char} (h : stop ∉ word) (text more : List Char) :
    strip? word (text ++ stop :: more) = (strip? word text).map (· ++ stop :: more) := by
  induction word generalizing text with
  | nil => rfl
  | cons c word ih =>
    rw [List.mem_cons, not_or] at h
    obtain ⟨hc, hw⟩ := h
    cases text with
    | nil => exact if_neg (Ne.symm hc)
    | cons d text =>
      rw [List.cons_append, strip?, strip?]
      split
      · exact ih hw text
      · rfl

theorem takeWhile_append {stop : Char} (h : test stop = false) (text more : List Char) :
    (text ++ stop :: more).takeWhile test = text.takeWhile test := by
  induction text with
  | nil => exact List.takeWhile_cons_of_neg (by simp [h])
  | cons c text ih => rw [List.cons_append, List.takeWhile_cons, List.takeWhile_cons, ih]

/-- A run that ends in a text, or right behind it, is not changed by what follows the text. -/
theorem run?_append {more : List Char}
    (h : (∃ c ∈ text, test c = false) ∨ ∀ c ∈ more.head?, test c = false) :
    run? test (text ++ more) = (run? test text).map fun (taken, rest) => (taken, rest ++ more) := by
  cases hr : run? test text with
  | none =>
    rw [run?_eq_none] at hr
    rw [Option.map_none, run?_eq_none]
    cases text with
    | nil => exact h.resolve_left (fun ⟨_, hm, _⟩ => List.not_mem_nil hm)
    | cons c text => exact hr
  | some result =>
    obtain ⟨taken, rest⟩ := result
    obtain ⟨rfl, hne, htaken, hrest⟩ := run?_eq_some.1 hr
    refine run?_eq_some.2 ⟨List.append_assoc .., hne, htaken, ?_⟩
    cases rest with
    | cons c rest => exact hrest
    | nil =>
      refine h.resolve_left ?_
      rintro ⟨c, hm, hc⟩
      rw [List.append_nil] at hm
      exact Bool.false_ne_true (hc.symm.trans (htaken c hm))

theorem isBlank_trim (text : String) : isBlank (trim text) = isBlank text := by
  have hleft (chars : List Char) :
      (chars.dropWhile CharClass.isSpace).all CharClass.isSpace = chars.all CharClass.isSpace := by
    induction chars with
    | nil => rfl
    | cons c rest ih =>
      rw [List.dropWhile_cons, List.all_cons]
      split
      · next hc => rw [ih, hc, Bool.true_and]
      · rfl
  rw [isBlank, isBlank, trim, String.toList_ofList, trimRight, List.all_reverse, hleft,
    List.all_reverse, trimLeft, hleft]

end CodeOutline.Text
