import CodeOutline.Proofs.Delimiter.Outside
import CodeOutline.Proofs.Delimiter.Start

namespace CodeOutline

namespace Delimiter

variable {depth start : Nat} {left right : List Cell}

/-- Whether a text is empty or ends with an opening brace. -/
def Admits (left : List Cell) : Prop :=
  left = [] ∨ ∃ init opening, left = init ++ [opening] ∧ opening.byte = 0x7B

/-- Behind a text that leaves only braces open a scan of every depth counts no other bracket. Right
behind a brace or at the beginning a statement may start. -/
theorem exists_startsFrom_braces (hd : due [] left = some (List.replicate depth 0x7D))
    (position : Nat) : ∃ braces pending, (Admits left → pending = true) ∧
      ∀ right start, start ∈ startsFrom .nested braces 0 pending (position + left.length) right →
        start ∈ startsFrom .nested 0 0 true position (left ++ right) := by
  have hparens : parensOver 0 left = 0 := by
    have h := parensOver_due hd
    simpa [List.count_replicate] using h
  rcases List.eq_nil_or_concat left with rfl | ⟨init, cell, rfl⟩
  · exact ⟨0, true, fun _ => rfl, fun right start h => h⟩
  rw [List.concat_eq_append] at hparens ⊢
  obtain ⟨pending, hscan⟩ := startsFrom_append .nested 0 0 true position init
  have hlast : parensAfter (parensOver 0 init) cell.byte = 0 :=
    (parensOver_append 0 init [cell]).symm.trans hparens
  have hlength : position + (init ++ [cell]).length = position + init.length + 1 := by
    rw [List.length_append, List.length_singleton]
    omega
  refine ⟨bracesAfter (bracesOver 0 init) cell.byte,
    endsStatement .nested (bracesOver 0 init) (parensOver 0 init) cell.byte ||
      (pending && cell.isBlank), fun ha => ?_, fun right start h => ?_⟩
  · obtain he | ⟨init', opening, he, hb⟩ := ha
    · exact absurd he (List.append_ne_nil_of_right_ne_nil _ (List.cons_ne_nil _ _))
    · obtain ⟨-, hcell⟩ := List.append_inj' he rfl
      cases hcell
      have hzero : parensOver 0 init = 0 := by
        rw [hb] at hlast
        exact hlast
      rw [hzero, hb]
      rfl
  · rw [List.append_assoc, hscan, List.singleton_append, startsFrom_cons, hlast]
    rw [hlength] at h
    exact List.mem_append_right _ (List.mem_append_right _ h)

end Delimiter

namespace Slice

open Delimiter

/-- A nested part around which a number of braces is open and nothing else. -/
def IsEnclosed (part whole : Slice) : Prop :=
  ∃ before after depth, whole.cells = before ++ (part.cells ++ after) ∧
    part.start = whole.start + before.length ∧
    due [] before = some (List.replicate depth 0x7D) ∧ IsNested part.cells

variable {part slice whole tail : Slice} {start : Nat}

theorem IsEnclosed.isPart (h : IsEnclosed part whole) : IsPart part whole := by
  obtain ⟨before, after, _, hc, hs, _⟩ := h
  exact ⟨before, after, hc, hs⟩

theorem IsEnclosed.isNested (h : IsEnclosed part whole) : IsNested part.cells := by
  obtain ⟨_, _, _, _, _, _, hn⟩ := h
  exact hn

theorem IsEnclosed.trans (h : IsEnclosed part slice) (h' : IsEnclosed slice whole) :
    IsEnclosed part whole := by
  obtain ⟨before, after, depth, hc, hs, hd, hn⟩ := h
  obtain ⟨before', after', depth', hc', hs', hd', _⟩ := h'
  refine ⟨before' ++ before, after ++ after', depth + depth', ?_, ?_, ?_, hn⟩
  · rw [hc', hc]
    simp only [List.append_assoc]
  · rw [hs, hs', List.length_append]
    omega
  · rw [due_append, hd', Option.bind_some, ← List.replicate_append_replicate]
    exact due_weaken _ hd

theorem Follows.isEnclosed (h : Follows tail slice) (hn : IsNested slice.cells) :
    IsEnclosed tail slice := by
  have htail := h.isNested hn
  obtain ⟨before, hc, hs, hb⟩ := h
  exact ⟨before, [], 0, by rw [List.append_nil, hc], hs, hb, htail⟩

/-- The starts of an enclosed part that begins behind a brace are starts of the whole. -/
theorem IsEnclosed.mem_statementStarts (h : IsEnclosed part whole)
    (hb : part.start = whole.start ∨ ∃ offset opening, IsPart ⟨offset, [opening]⟩ whole ∧
      opening.byte = 0x7B ∧ part.start = offset + 1)
    (hm : start ∈ part.statementStarts .topLevel) : start ∈ whole.statementStarts .nested := by
  obtain ⟨before, after, depth, hc, hs, hd, _⟩ := h
  have ha : Admits before := by
    rcases hb with hb | ⟨offset, opening, ⟨left, right, hc', hs'⟩, hbyte, hb⟩
    · exact .inl (List.eq_nil_of_length_eq_zero (by omega))
    · rw [hc, ← List.append_assoc left] at hc'
      simp only at hs'
      obtain ⟨hl, -⟩ := List.append_inj hc' (by
        rw [List.length_append, List.length_singleton]
        omega)
      exact .inr ⟨left, opening, hl, hbyte⟩
  obtain ⟨braces, pending, hp, hscan⟩ := exists_startsFrom_braces hd whole.start
  rw [statementStarts_eq] at hm ⊢
  rw [hc]
  apply hscan
  rw [hp ha, ← hs]
  exact mem_startsFrom_append (mem_startsFrom_nested (fun _ => rfl) hm braces) after

theorem IsEnclosed.mem_statementStarts_of_ne (h : IsEnclosed part whole) (hs : IsSolid part)
    (hne : start ≠ part.start) (hm : start ∈ part.statementStarts .topLevel) :
    start ∈ whole.statementStarts .nested := by
  obtain ⟨before, after, depth, hc, hstart, hd, _⟩ := h
  obtain ⟨cell, rest, hcells, hblank⟩ := hs
  obtain ⟨braces, pending, _, hscan⟩ := exists_startsFrom_braces hd whole.start
  rw [statementStarts_eq] at hm ⊢
  rw [hc]
  apply hscan
  rw [← hstart]
  apply mem_startsFrom_append
  rw [hcells, startsFrom_cons, List.mem_append, hblank, Bool.and_false, Bool.or_false] at hm
  rw [hcells, startsFrom_cons, hblank, Bool.and_false, Bool.or_false]
  apply List.mem_append_right
  refine mem_startsFrom_nested (fun he => endsStatement_nested he braces) (hm.resolve_left ?_) _
  exact fun hm => hne (List.mem_singleton.1 hm)

end Slice

end CodeOutline
