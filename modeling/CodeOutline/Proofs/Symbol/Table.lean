import CodeOutline.Symbol.Table
import Mathlib.Data.List.Induction

namespace CodeOutline

/-- The declaration that stands for a name: the last function of it, or else the last of any kind.
-/
def preferred? {α : Type} (name : α → String) (kind : α → SymbolKind) (sought : String)
    (declared : List α) : Option α :=
  (declared.filter fun a => name a = sought ∧ kind a = .function).getLast?.or
    (declared.filter fun a => name a = sought).getLast?

section

variable {α β : Type} {name : α → String} {kind : α → SymbolKind} {sought : String}
  {declared : List α} {a : α}

theorem preferred?_map {f : β → α} (declared : List β) :
    preferred? name kind sought (declared.map f) =
      (preferred? (name ∘ f) (kind ∘ f) sought declared).map f := by
  rw [preferred?, preferred?, List.filter_map, List.filter_map, List.getLast?_map,
    List.getLast?_map, Option.map_or]
  rfl

theorem preferred?_append_of_ne (h : name a ≠ sought) :
    preferred? name kind sought (declared ++ [a]) = preferred? name kind sought declared := by
  simp only [preferred?, List.filter_append, List.filter_cons, h, false_and, decide_false,
    Bool.false_eq_true, if_false, List.filter_nil, List.append_nil]

theorem preferred?_append_function (name : α → String) (kind : α → SymbolKind)
    (h : name a = sought) (hk : kind a = .function) :
    preferred? name kind sought (declared ++ [a]) = some a := by
  simp only [preferred?, List.filter_append, List.filter_cons, h, hk, and_self, decide_true,
    if_true, List.filter_nil, List.getLast?_append, List.getLast?_singleton, Option.some_or]

theorem preferred?_append_of_ne_function (name : α → String) (kind : α → SymbolKind)
    (h : name a = sought) (hk : kind a ≠ .function) :
    preferred? name kind sought (declared ++ [a]) =
      match preferred? name kind sought declared with
      | some held => if kind held = .function then some held else some a
      | none => some a := by
  have ha : preferred? name kind sought (declared ++ [a]) =
      (declared.filter fun a => name a = sought ∧ kind a = .function).getLast?.or (some a) := by
    simp only [preferred?, List.filter_append, List.filter_cons, h, hk, and_false, decide_false,
      decide_true, Bool.false_eq_true, if_false, if_true, List.filter_nil, List.append_nil,
      List.getLast?_append, List.getLast?_singleton, Option.some_or]
  rw [ha, preferred?]
  cases hf : (declared.filter fun a => name a = sought ∧ kind a = .function).getLast? with
  | some held =>
    have hm := List.mem_of_getLast? hf
    simp only [List.mem_filter, decide_eq_true_eq] at hm
    simp only [Option.some_or, hm.2.2, if_true]
  | none =>
    have hnone := List.getLast?_eq_none_iff.1 hf
    cases hl : (declared.filter fun a => name a = sought).getLast? with
    | none => rfl
    | some held =>
      have hm := List.mem_of_getLast? hl
      rw [List.mem_filter, decide_eq_true_eq] at hm
      have hkind : kind held ≠ .function := by
        intro hk
        have := List.filter_eq_nil_iff.1 hnone held hm.1
        exact this (decide_eq_true ⟨hm.2, hk⟩)
      simp only [Option.none_or, hkind, if_false]

theorem mem_of_preferred? (h : preferred? name kind sought declared = some a) :
    a ∈ declared ∧ name a = sought := by
  rcases Option.or_eq_some_iff.1 h with hm | ⟨_, hm⟩
  · have hm := List.mem_of_getLast? hm
    simp only [List.mem_filter, decide_eq_true_eq] at hm
    exact ⟨hm.1, hm.2.1⟩
  · have hm := List.mem_of_getLast? hm
    simp only [List.mem_filter, decide_eq_true_eq] at hm
    exact hm

theorem preferred?_filter_function (declared : List α) :
    (preferred? name kind sought declared).filter (fun a => kind a = .function) =
      (declared.filter fun a => name a = sought ∧ kind a = .function).getLast? := by
  rw [preferred?]
  cases hf : (declared.filter fun a => name a = sought ∧ kind a = .function).getLast? with
  | some a =>
    have hm := List.mem_of_getLast? hf
    simp only [List.mem_filter, decide_eq_true_eq] at hm
    rw [Option.some_or, Option.filter_some, if_pos (decide_eq_true hm.2.2)]
  | none =>
    have hnone := List.filter_eq_nil_iff.1 (List.getLast?_eq_none_iff.1 hf)
    rw [Option.none_or, Option.filter_eq_none_iff]
    intro a ha hk
    have hm := List.mem_of_getLast? ha
    simp only [List.mem_filter, decide_eq_true_eq] at hm hk
    exact hnone a hm.1 (decide_eq_true ⟨hm.2, hk⟩)

theorem preferred?_isSome (kind : α → SymbolKind) :
    (preferred? name kind sought declared).isSome ↔ ∃ a ∈ declared, name a = sought := by
  constructor
  · intro h
    obtain ⟨a, ha⟩ := Option.isSome_iff_exists.1 h
    exact ⟨a, mem_of_preferred? ha⟩
  · rintro ⟨a, ha, hn⟩
    have hm : a ∈ declared.filter fun a => name a = sought :=
      List.mem_filter.2 ⟨ha, decide_eq_true hn⟩
    have hl := List.getLast?_eq_some_getLast (List.ne_nil_of_mem hm)
    rw [preferred?, Option.isSome_or, hl, Option.isSome_some, Bool.or_true]

end

namespace SymbolTable

variable {table : SymbolTable} {sought : String}

theorem lookup_cons (head : String × SymbolEntry) (rest : List (String × SymbolEntry))
    (sought : String) : (head :: rest).lookup sought =
      if sought = head.1 then some head.2 else rest.lookup sought := by
  rw [List.lookup_cons]
  by_cases h : sought = head.1
  · rw [beq_iff_eq.2 h, if_pos h]
  · rw [beq_eq_false_iff_ne.2 h, if_neg h]

theorem lookup_insert (name : String) (entry : SymbolEntry) (entries : List (String × SymbolEntry))
    (sought : String) : (insert name entry entries).lookup sought =
      if sought = name then some entry else entries.lookup sought := by
  induction entries with
  | nil => exact lookup_cons (name, entry) [] sought
  | cons head rest ih =>
    rw [insert]
    split
    · next he =>
      rw [lookup_cons, lookup_cons, ← he]
      split <;> rfl
    · next he =>
      split
      · exact lookup_cons (name, entry) (head :: rest) sought
      · rw [lookup_cons, lookup_cons, ih]
        by_cases h : sought = head.1
        · have hn : sought ≠ name := fun hn => he (hn ▸ h)
          rw [if_pos h, if_neg hn, if_pos h]
        · rw [if_neg h, if_neg h]

theorem get?_register_of_ne {name : String} {entry : SymbolEntry} (h : sought ≠ name) :
    (table.register name entry).get? sought = table.get? sought := by
  have hi : (insert name entry table.entries).lookup sought = table.entries.lookup sought := by
    rw [lookup_insert, if_neg h]
  rw [register]
  split
  · split
    · rfl
    · exact hi
  · exact hi

theorem get?_register (name : String) (entry : SymbolEntry) :
    (table.register name entry).get? name =
      match table.get? name with
      | some held => if held.kind = .function ∧ entry.kind ≠ .function then some held else some entry
      | none => some entry := by
  have hi : (insert name entry table.entries).lookup name = some entry := by
    rw [lookup_insert, if_pos rfl]
  rw [register]
  cases hg : table.get? name with
  | none => exact hi
  | some held =>
    simp only
    split
    · exact hg
    · exact hi

theorem registerAll_append (entries : List (String × SymbolEntry)) (last : String × SymbolEntry) :
    table.registerAll (entries ++ [last]) = (table.registerAll entries).register last.1 last.2 := by
  rw [registerAll, List.foldl_append]
  rfl

/-- The last function of a name wins, and where there is none the last declaration. -/
theorem get?_registerAll (entries : List (String × SymbolEntry)) (sought : String) :
    (empty.registerAll entries).get? sought =
      (preferred? Prod.fst (fun entry => entry.2.kind) sought entries).map Prod.snd := by
  let kind (entry : String × SymbolEntry) : SymbolKind := entry.2.kind
  change _ = (preferred? Prod.fst kind sought entries).map Prod.snd
  induction entries using List.reverseRecOn with
  | nil => rfl
  | append_singleton entries last ih =>
    rw [registerAll_append]
    by_cases hn : last.1 = sought
    · rw [← hn] at ih ⊢
      rw [get?_register, ih]
      by_cases hk : last.2.kind = .function
      · rw [preferred?_append_function Prod.fst kind rfl hk]
        cases preferred? Prod.fst kind last.1 entries with
        | none => rfl
        | some held => exact if_neg fun h => h.2 hk
      · rw [preferred?_append_of_ne_function Prod.fst kind rfl hk]
        cases preferred? Prod.fst kind last.1 entries with
        | none => rfl
        | some held =>
          simp only [Option.map_some, ne_eq, hk, not_false_eq_true, and_true, kind]
          split <;> rfl
    · rw [get?_register_of_ne (Ne.symm hn), ih, preferred?_append_of_ne hn]

theorem mem_keys (table : SymbolTable) (name : String) :
    name ∈ table.entries.map Prod.fst ↔ (table.get? name).isSome := by
  rw [get?, List.lookup_isSome_iff, List.mem_map]
  constructor
  · rintro ⟨entry, hm, rfl⟩
    exact ⟨entry, hm, beq_self_eq_true _⟩
  · rintro ⟨entry, hm, he⟩
    exact ⟨entry, hm, (beq_iff_eq.1 he).symm⟩

theorem mem_of_mem_insert {name : String} {entry : SymbolEntry} {row : String × SymbolEntry}
    {entries : List (String × SymbolEntry)} (h : row ∈ insert name entry entries) :
    row = (name, entry) ∨ row ∈ entries := by
  induction entries with
  | nil => exact .inl (List.mem_singleton.1 h)
  | cons head rest ih =>
    rw [insert] at h
    split at h
    · exact (List.mem_cons.1 h).imp_right (List.mem_cons_of_mem _)
    · split at h
      · exact List.mem_cons.1 h
      · rcases List.mem_cons.1 h with rfl | h
        · exact .inr List.mem_cons_self
        · exact (ih h).imp_right (List.mem_cons_of_mem _)

/-- Whether the entries stand in the order of their names, no two under one name. -/
def IsOrdered (entries : List (String × SymbolEntry)) : Prop :=
  entries.Pairwise fun left right => left.1 < right.1

theorem IsOrdered.insert {entries : List (String × SymbolEntry)} (h : IsOrdered entries)
    (name : String) (entry : SymbolEntry) : IsOrdered (insert name entry entries) := by
  induction entries with
  | nil => exact List.pairwise_singleton ..
  | cons head rest ih =>
    obtain ⟨hhead, hrest⟩ := List.pairwise_cons.1 h
    rw [SymbolTable.insert]
    split
    · next he =>
      refine List.pairwise_cons.2 ⟨fun row hm => ?_, hrest⟩
      rw [he]
      exact hhead row hm
    · next he =>
      split
      · next hlt =>
        refine List.pairwise_cons.2 ⟨fun row hm => ?_, h⟩
        rcases List.mem_cons.1 hm with rfl | hm
        · exact hlt
        · exact String.lt_trans hlt (hhead row hm)
      · next hlt =>
        have hgt : head.1 < name := String.not_le.1 fun hle =>
          he (String.le_antisymm hle (String.not_lt.1 hlt))
        refine List.pairwise_cons.2 ⟨fun row hm => ?_, ih hrest⟩
        rcases mem_of_mem_insert hm with rfl | hm
        · exact hgt
        · exact hhead row hm

theorem IsOrdered.register (h : IsOrdered table.entries) (name : String) (entry : SymbolEntry) :
    IsOrdered (table.register name entry).entries := by
  rw [SymbolTable.register]
  split
  · split
    · exact h
    · exact h.insert name entry
  · exact h.insert name entry

theorem isOrdered_registerAll (entries : List (String × SymbolEntry)) :
    IsOrdered (empty.registerAll entries).entries := by
  induction entries using List.reverseRecOn with
  | nil => exact List.Pairwise.nil
  | append_singleton entries last ih =>
    rw [registerAll_append]
    exact ih.register last.1 last.2

theorem IsOrdered.mem_iff {entries : List (String × SymbolEntry)} (h : IsOrdered entries)
    {name : String} {entry : SymbolEntry} :
    (name, entry) ∈ entries ↔ entries.lookup name = some entry := by
  induction entries with
  | nil => exact ⟨fun hm => absurd hm List.not_mem_nil, fun hl => by cases hl⟩
  | cons head rest ih =>
    obtain ⟨hhead, hrest⟩ := List.pairwise_cons.1 h
    rw [lookup_cons, List.mem_cons, ih hrest]
    split
    · next he =>
      constructor
      · rintro (rfl | hl)
        · rfl
        · have hlt := hhead _ ((ih hrest).2 hl)
          exact absurd (he ▸ hlt) (String.lt_irrefl _)
      · intro hs
        cases hs
        exact .inl (by rw [he])
    · next he =>
      constructor
      · rintro (rfl | hl)
        · exact absurd rfl he
        · exact hl
      · exact .inr

end SymbolTable

end CodeOutline
