import CodeOutline.Proofs.Outline.Part

namespace CodeOutline

open Slice (IsPart IsTail)

namespace Outline

/-- The level below the given number of levels. -/
def below : Nat → Option Level
  | 0 => none
  | levels + 1 => some (level levels)

theorem level_conditional? (levels : Nat) :
    (level levels).conditional? = conditional? levels (below levels) := by
  cases levels <;> rfl

theorem level_block (levels : Nat) : (level levels).block = statements levels (below levels) := by
  cases levels <;> rfl

theorem mem_level_block {levels : Nat} {block : Slice} {outline : Outline} :
    outline ∈ (level levels).block block ↔
      ∃ head ∈ block.heads .topLevel, statement? levels (below levels) head = some outline := by
  rw [level_block, statements, Slice.filterMap_statementStarts, List.mem_filterMap]

/-- The conditionals of a chain of `else if`, from the given one on, with their levels. -/
inductive Chained : Nat → Slice → Nat → Slice → Prop where
  | refl (levels : Nat) (slice : Slice) : Chained levels slice levels slice
  | next {levels levels' : Nat} {slice body inner after other next last : Slice}
      {heading : Heading} (hh : slice.heading? = some heading) (hk : heading.name.text = "if")
      (hb : bodyRange? (levels + 1) heading.after = some (body, inner, after))
      (he : after.next?.bind (Slice.after? "else") = some other) (hn : other.next? = some next)
      (hc : (conditional? levels (below levels) next).isSome)
      (hs : Chained levels next levels' last) : Chained (levels + 1) slice levels' last

/-- The blocks of a conditional or a loop. Their statements are read at the given level, which is
the one below that of the slice. -/
inductive Opens (levels : Nat) (slice : Slice) : Slice → Slice → Prop where
  | body {body inner after : Slice} {heading : Heading} (hh : slice.heading? = some heading)
      (hk : heading.name.text ∈ ["if", "for", "while"])
      (hb : bodyRange? (levels + 1) heading.after = some (body, inner, after)) :
      Opens levels slice body inner
  | alternative {body inner after other body' inner' after' : Slice} {heading : Heading}
      (hh : slice.heading? = some heading) (hk : heading.name.text = "if")
      (hb : bodyRange? (levels + 1) heading.after = some (body, inner, after))
      (he : after.next?.bind (Slice.after? "else") = some other)
      (hc : other.next?.bind (conditional? levels (below levels)) = none)
      (ha : bodyRange? (levels + 1) other = some (body', inner', after')) :
      Opens levels slice body' inner'

/-- The blocks of a text whose statements are read, with the level they are read at. -/
inductive Visits (text : Slice) : Nat → Slice → Prop where
  | function {head : Slice} {function : FunctionDefinition} (hh : head ∈ text.heads .topLevel)
      (hf : FunctionDefinition.read? head = some function) : Visits text maxNesting function.body
  | body {levels levels' : Nat} {block head last body inner : Slice}
      (hv : Visits text levels block) (hh : head ∈ block.heads .topLevel)
      (hs : (statement? levels (below levels) head).isSome)
      (hc : Chained levels head (levels' + 1) last) (ho : Opens levels' last body inner) :
      Visits text levels' inner

variable {levels levels' : Nat} {text slice block body inner after other last : Slice}
  {heading : Heading} {outline : Outline}

/-- After an `else` there is a conditional of the level below or else a body. -/
theorem alternative?_spec (h : alternative? levels (below levels) slice = some (outline, after)) :
    (∃ next conditional inner, levels = next + 1 ∧ slice.next? = some inner ∧
      conditional? next (below next) inner = some (conditional, after) ∧
      outline = conditional.relabel fun item => { item with relation := .alternative }) ∨
    ((∀ next, levels = next + 1 → slice.next?.bind (conditional? next (below next)) = none) ∧
      body? levels (below levels) .alternative slice = some (outline, after)) := by
  rw [alternative?] at h
  cases levels with
  | zero => exact .inr ⟨fun next hn => (by cases hn), h⟩
  | succ next =>
    have hb : (below (next + 1)).bind (fun level => slice.next?.bind level.conditional?) =
        slice.next?.bind (conditional? next (below next)) := by
      rw [← level_conditional?]
      rfl
    rw [hb] at h
    cases hc : slice.next?.bind (conditional? next (below next)) with
    | none =>
      rw [hc] at h
      refine .inr ⟨?_, h⟩
      rintro _ ⟨⟩
      exact hc
    | some found =>
      rw [hc] at h
      cases h
      rw [Option.bind_eq_some_iff] at hc
      obtain ⟨inner, hn, hc⟩ := hc
      exact .inl ⟨next, found.1, inner, rfl, hn, hc, rfl⟩

theorem isPart_of_bodyRange? (h : bodyRange? levels slice = some (body, inner, after)) :
    IsPart inner slice ∧ IsTail after slice ∧ inner.stop ≤ after.start := by
  obtain ⟨hn, hi, ha, hle, _⟩ := bodyRange?_spec h
  have hb := (Slice.next?_spec hn).2.1
  exact ⟨hi.trans hb.isPart, ha.trans hb, hle⟩

theorem Opens.isPart (h : Opens levels slice body inner) : IsPart inner slice := by
  cases h with
  | body hh _ hb =>
    exact (isPart_of_bodyRange? hb).1.trans (Slice.heading?_spec hh).2.2.1.isPart
  | alternative hh _ hb he _ ha =>
    have ht := (isTail_of_else he).trans (isPart_of_bodyRange? hb).2.1
    exact (isPart_of_bodyRange? ha).1.trans (ht.trans (Slice.heading?_spec hh).2.2.1).isPart

theorem Chained.isTail (h : Chained levels slice levels' last) : IsTail last slice := by
  induction h with
  | refl => exact IsTail.refl _
  | next hh _ hb he hn _ _ ih =>
    have ho := (Slice.next?_spec hn).2.1.trans (isTail_of_else he)
    exact ih.trans (ho.trans ((isPart_of_bodyRange? hb).2.1.trans (Slice.heading?_spec hh).2.2.1))

theorem Chained.levels_le (h : Chained levels slice levels' last) : levels' ≤ levels := by
  induction h with
  | refl => exact Nat.le_refl _
  | next _ _ _ _ _ _ _ ih => exact Nat.le_succ_of_le ih

theorem Visits.isPart (h : Visits text levels block) : IsPart block text := by
  induction h with
  | function hh hf =>
    exact (FunctionDefinition.read?_spec hf).2.2.1.trans (Slice.isTail_of_mem_heads hh).isPart
  | body _ hh _ hc ho ih =>
    exact ho.isPart.trans ((hc.isTail.trans (Slice.isTail_of_mem_heads hh)).isPart.trans ih)

end Outline

end CodeOutline
