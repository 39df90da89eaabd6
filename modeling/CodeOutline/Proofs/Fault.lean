import Mathlib.Data.List.ReduceOption

namespace CodeOutline

variable {ε α β γ : Type}

@[simp] theorem ok_bind (value : α) (next : α → Except ε β) :
    (Except.ok value >>= next : Except ε β) = next value :=
  rfl

@[simp] theorem pure_eq_ok (value : α) : (pure value : Except ε α) = .ok value :=
  rfl

theorem mapM_map_ok {read : β → Except ε γ} {place : α → β} {value : α → γ}
    {list : List α} (h : ∀ item ∈ list, read (place item) = .ok (value item)) :
    (list.map place).mapM read = .ok (list.map value) := by
  induction list with
  | nil => rfl
  | cons item others ih =>
    rw [List.map_cons, List.mapM_cons, h item List.mem_cons_self,
      ih fun other hm => h other (List.mem_cons_of_mem _ hm)]
    rfl

theorem mapM_ok {read : α → Except ε β} {value : α → β} {list : List α}
    (h : ∀ item ∈ list, read item = .ok (value item)) : list.mapM read = .ok (list.map value) := by
  have hmap : (list.map id).mapM read = .ok (list.map value) := mapM_map_ok h
  rwa [List.map_id] at hmap

theorem reduceOption_map (list : List α) (read : α → Option β) :
    (list.map read).reduceOption = list.filterMap read := by
  rw [List.reduceOption, List.filterMap_map]
  rfl

end CodeOutline
