import CodeOutline.Proofs.Order
import CodeOutline.Proofs.Outline.Budget
import CodeOutline.Proofs.Shape.Concluded
import Mathlib.Data.List.Basic

namespace CodeOutline

open Delimiter (Concludes)

variable {text slice head : Slice} {right : List Cell}

namespace Slice

theorem heads_append (h : Concludes [] slice.cells) (right : List Cell) :
    (slice.append right).heads .topLevel =
      (slice.heads .topLevel).map (·.append right) ++
        (Slice.mk slice.stop right).heads .topLevel :=
  h.restarts right true slice.start

theorem isConcluded_of_mem_heads (h : Concludes [] slice.cells)
    (hm : head ∈ slice.heads .topLevel) : head.IsConcluded := by
  obtain ⟨hfollows, cell, rest, hc, hb⟩ := follows_of_mem_heads h.due_eq hm
  exact IsConcluded.of_isTail ⟨_, h⟩ hfollows.isTail ⟨cell, hc ▸ List.mem_cons_self, hb⟩

end Slice

namespace Outline

theorem pairwise_items (text : Slice) : ((text.heads .topLevel).filterMap (item? text)).Pairwise
    fun left right => left.label.offset < right.label.offset := by
  rw [List.pairwise_filterMap]
  refine (text.pairwise_heads .topLevel).imp ?_
  intro left right hlt item hi other ho
  have hoffset {head : Slice} {item : Outline} (h : item? text head = some item) :
      item.label.offset = head.start := by
    rw [item?, Option.or_eq_some_iff, Option.map_eq_some_iff, Option.map_eq_some_iff] at h
    rcases h with ⟨function, hr, rfl⟩ | ⟨_, declaration, hd, rfl⟩
    · exact (FunctionDefinition.read?_spec hr).1
    · exact (Declaration.read?_spec (Option.filter_eq_some_iff.1 hd).1).1
  rw [hoffset hi, hoffset ho]
  exact hlt

theorem children_ofText (hf : ∀ cell ∈ text.cells, cell.IsFaithful) :
    (ofText text).children = (text.heads .topLevel).filterMap (item? text) :=
  mergeSort_eq_of_perm (fun item : Outline => item.label.offset) (items_perm hf)
    (pairwise_items text)

end Outline

section

variable (h : Concludes [] slice.cells) (hf : ∀ cell ∈ slice.cells, cell.IsFaithful)

include h hf

theorem FunctionDefinition.findAll_append (right : List Cell) :
    findAll (slice.append right) = findAll slice ++ findAll ⟨slice.stop, right⟩ := by
  simp only [findAll, Slice.filterMap_statementStarts]
  rw [Slice.heads_append h, List.filterMap_append, List.filterMap_map]
  congr 1
  refine List.filterMap_congr fun head hm => ?_
  exact (Slice.isConcluded_of_mem_heads h hm).function_append
    (fun cell hc => hf cell ((Slice.isTail_of_mem_heads hm).isPart.subset hc)) right

omit hf in
theorem FunctionDefinition.last_lt_stop {function : FunctionDefinition}
    (hm : function ∈ findAll slice) : function.extent.last < slice.stop := by
  obtain ⟨head, hm, hr⟩ := mem_findAll.1 hm
  rw [← (Slice.isTail_of_mem_heads hm).stop_eq]
  exact (Slice.isConcluded_of_mem_heads h hm).function_last hr

namespace Outline

theorem any_contains_append (right : List Cell) (offset : Nat) :
    ((FunctionDefinition.findAll (slice.append right)).any fun function =>
      function.extent.contains offset) =
        ((FunctionDefinition.findAll slice).any (·.extent.contains offset) ||
          (FunctionDefinition.findAll ⟨slice.stop, right⟩).any (·.extent.contains offset)) := by
  rw [FunctionDefinition.findAll_append h hf, List.any_append]

theorem item?_append (hm : head ∈ slice.heads .topLevel) (right : List Cell) :
    item? (slice.append right) (head.append right) = item? slice head := by
  have hconcluded := Slice.isConcluded_of_mem_heads h hm
  have hfaithful : ∀ cell ∈ head.cells, cell.IsFaithful :=
    fun cell hc => hf cell ((Slice.isTail_of_mem_heads hm).isPart.subset hc)
  rw [item?, item?, global?, global?, hconcluded.function_append hfaithful,
    hconcluded.declaration_append hfaithful]
  cases hd : Declaration.read? head with
  | none => rfl
  | some declaration =>
    have hlater : (FunctionDefinition.findAll ⟨slice.stop, right⟩).any
        (·.extent.contains declaration.start) = false := by
      refine List.any_eq_false.2 fun function hm' hin => ?_
      obtain ⟨other, ho, hr⟩ := FunctionDefinition.mem_findAll.1 hm'
      have hstart := (Slice.isTail_of_mem_heads ho).isPart.start_le
      have hopening : other.start ≤ function.extent.first := (FunctionDefinition.read?_spec hr).2.1
      have hlt := Slice.start_lt_of_mem_heads hm
      rw [(Slice.isTail_of_mem_heads hm).stop_eq] at hlt
      rw [(Declaration.read?_spec hd).1] at hin
      simp only [Extent.contains, Bool.and_eq_true, decide_eq_true_eq] at hin hstart
      omega
    simp only [Option.filter_some, any_contains_append h hf, hlater, Bool.or_false]

theorem item?_behind (hm : head ∈ (Slice.mk slice.stop right).heads .topLevel) :
    item? (slice.append right) head = item? ⟨slice.stop, right⟩ head := by
  rw [item?, item?, global?, global?]
  cases hd : Declaration.read? head with
  | none => rfl
  | some declaration =>
    have hearlier : (FunctionDefinition.findAll slice).any
        (·.extent.contains declaration.start) = false := by
      refine List.any_eq_false.2 fun function hm' hin => ?_
      have hlast := FunctionDefinition.last_lt_stop h hm'
      have hstart := (Slice.isTail_of_mem_heads hm).isPart.start_le
      rw [(Declaration.read?_spec hd).1] at hin
      simp only [Extent.contains, Bool.and_eq_true, decide_eq_true_eq] at hin hstart
      omega
    simp only [Option.filter_some, any_contains_append h hf, hearlier, Bool.false_or]

/-- The items of two texts, the first of which ends a statement and a line. -/
theorem children_ofText_append (hf' : ∀ cell ∈ right, cell.IsFaithful) :
    (ofText (slice.append right)).children =
      (ofText slice).children ++ (ofText ⟨slice.stop, right⟩).children := by
  have hall : ∀ cell ∈ (slice.append right).cells, cell.IsFaithful :=
    List.forall_mem_append.2 ⟨hf, hf'⟩
  rw [children_ofText hall, children_ofText hf, children_ofText hf', Slice.heads_append h,
    List.filterMap_append, List.filterMap_map]
  congr 1
  · exact List.filterMap_congr fun head hm => item?_append h hf hm right
  · exact List.filterMap_congr fun head hm => item?_behind h hf hm

end Outline

end

end CodeOutline
