import CodeOutline.Text.Location
import Mathlib.Order.Monotone.Basic

namespace CodeOutline

namespace Extent

variable {extents front back : List Extent} {extent : Extent} {offset : Nat}

theorem filter_zipIdx (h : ∀ extent ∈ extents, extent.contains offset = false) (index : Nat) :
    ((extents.zipIdx index).filter fun entry => entry.1.contains offset) = [] := by
  rw [List.filter_eq_nil_iff]
  intro entry hm
  rw [h entry.1 (List.fst_mem_of_mem_zipIdx hm)]
  exact Bool.false_ne_true

theorem innermost?_append (hf : ∀ extent ∈ front, extent.contains offset = false)
    (h : extent.contains offset) (hb : ∀ extent ∈ back, extent.contains offset = false) :
    innermost? (front ++ extent :: back) offset = some front.length := by
  rw [innermost?, List.zipIdx_append, List.filter_append, filter_zipIdx hf, List.zipIdx_cons,
    List.filter_cons, filter_zipIdx hb, List.nil_append]
  simp only [h, if_true, List.foldl_nil, Nat.zero_add]

theorem foldl_shorter_spec (held : Extent × Nat) (others : List (Extent × Nat)) :
    others.foldl shorter held ∈ held :: others ∧
      ∀ entry ∈ held :: others, (others.foldl shorter held).1.length ≤ entry.1.length := by
  induction others generalizing held with
  | nil =>
    refine ⟨List.mem_cons_self, fun entry hm => ?_⟩
    rw [List.mem_singleton.1 hm]
    exact Nat.le_refl _
  | cons first others ih =>
    obtain ⟨hm, hle⟩ := ih (shorter held first)
    rw [List.foldl_cons]
    have hkept : shorter held first = held ∨ shorter held first = first := by
      rw [shorter]
      split
      · exact .inr rfl
      · exact .inl rfl
    have hshorter : (shorter held first).1.length ≤ held.1.length ∧
        (shorter held first).1.length ≤ first.1.length := by
      rw [shorter]
      split
      · next hlt => exact ⟨Nat.le_of_lt hlt, Nat.le_refl _⟩
      · next hlt => exact ⟨Nat.le_refl _, Nat.le_of_not_lt hlt⟩
    have hself := hle _ List.mem_cons_self
    constructor
    · rcases List.mem_cons.1 hm with hm | hm
      · rw [hm]
        rcases hkept with hk | hk
        · rw [hk]
          exact List.mem_cons_self
        · rw [hk]
          exact List.mem_cons_of_mem _ List.mem_cons_self
      · exact List.mem_cons_of_mem _ (List.mem_cons_of_mem _ hm)
    · intro entry he
      rcases List.mem_cons.1 he with rfl | he
      · exact Nat.le_trans hself hshorter.1
      rcases List.mem_cons.1 he with rfl | he
      · exact Nat.le_trans hself hshorter.2
      · exact hle entry (List.mem_cons_of_mem _ he)

theorem innermost?_spec {index : Nat} (h : innermost? extents offset = some index) :
    ∃ extent, extents[index]? = some extent ∧ extent.contains offset ∧
      ∀ other ∈ extents, other.contains offset → extent.length ≤ other.length := by
  rw [innermost?] at h
  split at h
  · cases h
  · next first others hf =>
    obtain ⟨hm, hle⟩ := foldl_shorter_spec first others
    cases h
    rw [← hf, List.mem_filter, List.mem_zipIdx_iff_getElem?] at hm
    refine ⟨_, hm.1, hm.2, fun other ho hc => ?_⟩
    obtain ⟨place, hp⟩ := List.mem_iff_getElem?.1 ho
    apply hle (other, place)
    rw [← hf]
    exact List.mem_filter.2 ⟨List.mem_zipIdx_iff_getElem?.2 hp, hc⟩

theorem not_contains_of_innermost?_none (h : innermost? extents offset = none) :
    ∀ extent ∈ extents, extent.contains offset = false := by
  rw [innermost?] at h
  split at h
  · next hf =>
    intro extent he
    obtain ⟨place, hp⟩ := List.mem_iff_getElem?.1 he
    exact Bool.eq_false_iff.2
      (List.filter_eq_nil_iff.1 hf (extent, place) (List.mem_zipIdx_iff_getElem?.2 hp))
  · cases h

/-- One extent lies in another. -/
def Within (inner outer : Extent) : Prop :=
  outer.first ≤ inner.first ∧ inner.last ≤ outer.last

/-- The extents have no offset in common, or one of them lies in the other and is shorter. -/
def Laminar (left right : Extent) : Prop :=
  (left.last < right.first ∨ right.last < left.first) ∨
    (left.Within right ∧ left.length < right.length) ∨
    (right.Within left ∧ right.length < left.length)

/-- The extent at an index contains the offset and lies in every extent that does. -/
def IsInnermost (extents : List Extent) (offset index : Nat) : Prop :=
  ∃ extent, extents[index]? = some extent ∧ extent.contains offset ∧
    ∀ other ∈ extents, other.contains offset → extent.Within other

variable {left right : Extent}

theorem Within.length_le (h : left.Within right) : left.length ≤ right.length := by
  obtain ⟨hfirst, hlast⟩ := h
  rw [length, length]
  omega

theorem Laminar.symm (h : Laminar left right) : Laminar right left :=
  h.imp Or.symm Or.symm

theorem Laminar.within (h : Laminar left right) (hl : left.contains offset)
    (hr : right.contains offset) (hle : left.length ≤ right.length) :
    left.Within right ∧ left.length < right.length := by
  simp only [contains, Bool.and_eq_true, decide_eq_true_eq] at hl hr
  rcases h with hapart | hinner | houter
  · omega
  · exact hinner
  · exact absurd houter.2 (Nat.not_lt_of_le hle)

theorem laminar_of_ne {index place : Nat} (h : extents.Pairwise Laminar)
    (hl : extents[index]? = some left) (hr : extents[place]? = some right) (hne : index ≠ place) :
    Laminar left right := by
  obtain ⟨hi, rfl⟩ := List.getElem?_eq_some_iff.1 hl
  obtain ⟨hp, rfl⟩ := List.getElem?_eq_some_iff.1 hr
  rw [List.pairwise_iff_getElem] at h
  rcases Nat.lt_or_gt_of_ne hne with hlt | hlt
  · exact h index place hi hp hlt
  · exact (h place index hp hi hlt).symm

theorem isInnermost_of_innermost? {index : Nat} (h : extents.Pairwise Laminar)
    (hi : innermost? extents offset = some index) : IsInnermost extents offset index := by
  obtain ⟨extent, he, hc, hle⟩ := innermost?_spec hi
  refine ⟨extent, he, hc, fun other hm hother => ?_⟩
  obtain ⟨place, hp⟩ := List.mem_iff_getElem?.1 hm
  by_cases heq : index = place
  · cases he.symm.trans (heq ▸ hp)
    exact ⟨Nat.le_refl _, Nat.le_refl _⟩
  · exact ((laminar_of_ne h he hp heq).within hc hother (hle other hm hother)).1

theorem IsInnermost.eq {index place : Nat} (h : extents.Pairwise Laminar)
    (hi : IsInnermost extents offset index) (hp : IsInnermost extents offset place) :
    index = place := by
  obtain ⟨extent, he, hc, hin⟩ := hi
  obtain ⟨other, ho, hc', hin'⟩ := hp
  by_contra hne
  have hwithin := hin other (List.mem_of_getElem? ho) hc'
  have hwithin' := hin' extent (List.mem_of_getElem? he) hc
  have hlt := ((laminar_of_ne h he ho hne).within hc hc' hwithin.length_le).2
  exact Nat.not_lt_of_le hwithin'.length_le hlt

/-- Where extents do not overlap otherwise, exactly one of those around an offset lies in all the
others, and it is found. -/
theorem exists_innermost? (h : extents.Pairwise Laminar)
    (hc : ∃ extent ∈ extents, extent.contains offset) :
    ∃ index, innermost? extents offset = some index ∧
      ∀ other, IsInnermost extents offset other ↔ other = index := by
  cases hi : innermost? extents offset with
  | none =>
    obtain ⟨extent, hm, hin⟩ := hc
    rw [not_contains_of_innermost?_none hi extent hm] at hin
    cases hin
  | some index =>
    have hinner := isInnermost_of_innermost? h hi
    refine ⟨index, rfl, fun other => ⟨fun ho => ho.eq h hinner, ?_⟩⟩
    rintro rfl
    exact hinner

/-- One of the extents lies in the other. -/
def Nested (left right : Extent) : Prop :=
  (right.first ≤ left.first ∧ left.last ≤ right.last) ∨
    (left.first ≤ right.first ∧ right.last ≤ left.last)

variable {move : Nat → Nat} (hmove : StrictMono move)

def relocate (move : Nat → Nat) (extent : Extent) : Extent :=
  ⟨move extent.first, move extent.last⟩

include hmove

theorem contains_relocate (extent : Extent) (offset : Nat) :
    (extent.relocate move).contains (move offset) = extent.contains offset := by
  simp only [contains, relocate, hmove.le_iff_le]

/-- Which of two nested extents is shorter does not depend on the distances. -/
theorem length_lt_relocate {left right : Extent} (h : Nested left right)
    (hl : left.first ≤ left.last) (hr : right.first ≤ right.last) :
    (left.relocate move).length < (right.relocate move).length ↔ left.length < right.length := by
  have hl' := hmove.monotone hl
  have hr' := hmove.monotone hr
  simp only [length, relocate]
  rcases h with ⟨hf, hlast⟩ | ⟨hf, hlast⟩
  · have hf' := hmove.le_iff_le.2 hf
    have hlast' := hmove.le_iff_le.2 hlast
    by_cases he : right.first = left.first ∧ left.last = right.last
    · rw [he.1, he.2]
      omega
    · have : right.first < left.first ∨ left.last < right.last := by omega
      rcases this with hlt | hlt
      · have := hmove hlt
        omega
      · have := hmove hlt
        omega
  · have hf' := hmove.le_iff_le.2 hf
    have hlast' := hmove.le_iff_le.2 hlast
    omega

theorem shorter_relocate {held entry : Extent × Nat} (h : Nested entry.1 held.1)
    (he : entry.1.first ≤ entry.1.last) (hh : held.1.first ≤ held.1.last) :
    shorter (Prod.map (relocate move) id held) (Prod.map (relocate move) id entry) =
      Prod.map (relocate move) id (shorter held entry) := by
  simp only [shorter, Prod.map_fst, length_lt_relocate hmove h he hh]
  split <;> rfl

theorem foldl_shorter_relocate (held : Extent × Nat) (others : List (Extent × Nat))
    (hle : ∀ entry ∈ held :: others, entry.1.first ≤ entry.1.last)
    (hn : ∀ left ∈ held :: others, ∀ right ∈ held :: others, Nested left.1 right.1) :
    (others.map (Prod.map (relocate move) id)).foldl shorter (Prod.map (relocate move) id held) =
      Prod.map (relocate move) id (others.foldl shorter held) := by
  induction others generalizing held with
  | nil => rfl
  | cons first others ih =>
    have hfirst : first ∈ held :: first :: others := List.mem_cons_of_mem _ List.mem_cons_self
    have hsub : shorter held first :: others ⊆ held :: first :: others := by
      refine List.cons_subset.2 ⟨?_, fun entry hm =>
        List.mem_cons_of_mem _ (List.mem_cons_of_mem _ hm)⟩
      rw [shorter]
      split
      · exact hfirst
      · exact List.mem_cons_self
    rw [List.map_cons, List.foldl_cons, List.foldl_cons, shorter_relocate hmove
      (hn first hfirst held List.mem_cons_self) (hle first hfirst) (hle held List.mem_cons_self)]
    exact ih _ (fun entry hm => hle entry (hsub hm))
      fun left hl right hr => hn left (hsub hl) right (hsub hr)

/-- The innermost extent around an offset stays the innermost one. -/
theorem innermost?_relocate
    (hn : ∀ left ∈ extents, ∀ right ∈ extents, left.contains offset → right.contains offset →
      Nested left right) :
    innermost? (extents.map (relocate move)) (move offset) = innermost? extents offset := by
  have haround {entry : Extent × Nat}
      (hm : entry ∈ extents.zipIdx.filter fun entry => entry.1.contains offset) :
      entry.1 ∈ extents ∧ entry.1.contains offset :=
    ⟨List.fst_mem_of_mem_zipIdx (List.mem_filter.1 hm).1, (List.mem_filter.1 hm).2⟩
  have hfilter : ((extents.map (relocate move)).zipIdx.filter fun entry =>
      entry.1.contains (move offset)) =
        (extents.zipIdx.filter fun entry => entry.1.contains offset).map
          (Prod.map (relocate move) id) := by
    rw [List.zipIdx_map, List.filter_map]
    congr 2
    funext entry
    exact contains_relocate hmove entry.1 offset
  rw [innermost?, innermost?, hfilter]
  cases hc : extents.zipIdx.filter fun entry => entry.1.contains offset with
  | nil => rfl
  | cons first others =>
    rw [hc] at haround
    simp only [List.map_cons]
    rw [foldl_shorter_relocate hmove first others]
    · rfl
    · intro entry hm
      have hin := (haround hm).2
      simp only [contains, Bool.and_eq_true, decide_eq_true_eq] at hin
      exact Nat.le_trans hin.1 hin.2
    · exact fun left hl right hr =>
        hn _ (haround hl).1 _ (haround hr).1 (haround hl).2 (haround hr).2

end Extent

end CodeOutline
