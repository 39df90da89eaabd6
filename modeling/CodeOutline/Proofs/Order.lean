namespace CodeOutline

variable {α β : Type}

theorem eq_of_key_eq {key : α → Nat} {sorted : List α}
    (hs : sorted.Pairwise fun left right => key left < key right) {a b : α} (ha : a ∈ sorted)
    (hb : b ∈ sorted) (h : key a = key b) : a = b := by
  induction sorted with
  | nil => cases ha
  | cons first others ih =>
    rw [List.pairwise_cons] at hs
    rcases List.mem_cons.1 ha with rfl | ha'
    · rcases List.mem_cons.1 hb with rfl | hb'
      · rfl
      · exact absurd h (Nat.ne_of_lt (hs.1 b hb'))
    · rcases List.mem_cons.1 hb with rfl | hb'
      · exact absurd h.symm (Nat.ne_of_lt (hs.1 a ha'))
      · exact ih hs.2 ha' hb'

theorem eq_of_perm_of_pairwise {key : α → Nat} {ordered sorted : List α}
    (h : ordered.Perm sorted) (ho : ordered.Pairwise fun left right => key left ≤ key right)
    (hs : sorted.Pairwise fun left right => key left < key right) : ordered = sorted := by
  refine List.Perm.eq_of_pairwise ?_ ho (hs.imp Nat.le_of_lt) h
  intro a b ha hb hab hba
  exact eq_of_key_eq hs (h.subset ha) hb (Nat.le_antisymm hab hba)

theorem pairwise_mergeSort (key : α → Nat) (given : List α) :
    (given.mergeSort fun left right => key left ≤ key right).Pairwise
      fun left right => key left ≤ key right := by
  refine (List.pairwise_mergeSort ?_ ?_ given).imp of_decide_eq_true
  · intro a b c hab hbc
    simp only [decide_eq_true_eq] at hab hbc ⊢
    exact Nat.le_trans hab hbc
  · intro a b
    simp only [Bool.or_eq_true, decide_eq_true_eq]
    exact Nat.le_total _ _

theorem mergeSort_eq_of_perm {given sorted : List α} (key : α → Nat) (h : given.Perm sorted)
    (hs : sorted.Pairwise fun left right => key left < key right) :
    (given.mergeSort fun left right => key left ≤ key right) = sorted :=
  eq_of_perm_of_pairwise ((List.mergeSort_perm ..).trans h) (pairwise_mergeSort key given) hs

theorem filter_mergeSort_eq {given sorted : List α} (key : α → Nat) {test : α → Bool}
    (h : given.filter test = sorted)
    (hs : sorted.Pairwise fun left right => key left < key right) :
    (given.mergeSort fun left right => key left ≤ key right).filter test = sorted := by
  refine eq_of_perm_of_pairwise ?_ ((pairwise_mergeSort key given).filter test) hs
  rw [← h]
  exact (List.mergeSort_perm ..).filter test

theorem filterMap_append_perm (left? right? : α → Option β)
    (l : List α) (h : ∀ a ∈ l, left? a = none ∨ right? a = none) :
    (l.filterMap left? ++ l.filterMap right?).Perm
      (l.filterMap fun a => (left? a).or (right? a)) := by
  induction l with
  | nil => exact List.Perm.refl _
  | cons a l ih =>
    have ih := ih fun b hb => h b (List.mem_cons_of_mem _ hb)
    cases hl : left? a with
    | none =>
      rw [List.filterMap_cons_none hl]
      cases hr : right? a with
      | none => rwa [List.filterMap_cons_none hr, List.filterMap_cons_none (by rw [hl, hr]; rfl)]
      | some b =>
        rw [List.filterMap_cons_some hr, List.filterMap_cons_some (by rw [hl, hr]; rfl)]
        exact List.perm_middle.trans (ih.cons _)
    | some b =>
      have hr : right? a = none := (h a List.mem_cons_self).resolve_left (by rw [hl]; simp)
      rw [List.filterMap_cons_some hl, List.filterMap_cons_none hr,
        List.filterMap_cons_some (by rw [hl]; rfl)]
      exact ih.cons _

/-- So is what several readings find, each by itself, if no two of them find something in the same
place. -/
theorem flatMap_filterMap_perm {ρ : Type} (read? : α → ρ → Option β) (l : List α)
    (h : ∀ a ∈ l, ∀ reader other, (read? a reader).isSome → (read? a other).isSome → reader = other)
    {readers : List ρ} (hn : readers.Nodup) :
    (readers.flatMap fun reader => l.filterMap (read? · reader)).Perm
      (l.filterMap fun a => readers.findSome? (read? a)) := by
  induction readers with
  | nil => simp
  | cons reader readers ih =>
    rw [List.nodup_cons] at hn
    have hfirst : ∀ a ∈ l, read? a reader = none ∨ readers.findSome? (read? a) = none := by
      intro a hm
      cases hs : read? a reader with
      | none => exact .inl rfl
      | some _ =>
        refine .inr (List.findSome?_eq_none_iff.2 fun other ho => ?_)
        rw [← Option.not_isSome_iff_eq_none]
        intro hs'
        have he := h a hm reader other (by rw [hs]; rfl) hs'
        exact hn.1 (he ▸ ho)
    have hread : (fun a => (reader :: readers).findSome? (read? a)) =
        fun a => (read? a reader).or (readers.findSome? (read? a)) := by
      funext a
      rw [List.findSome?_cons]
      cases read? a reader <;> rfl
    rw [List.flatMap_cons, hread]
    exact ((ih hn.2).append_left _).trans (filterMap_append_perm (read? · reader) _ l hfirst)

end CodeOutline
