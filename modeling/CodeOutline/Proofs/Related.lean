import CodeOutline.Proofs.Tree
import Mathlib.Data.List.Forall2

namespace CodeOutline

variable {α β γ δ : Type} {R : α → β → Prop} {S : γ → δ → Prop}

section

variable {x y : Option α} {x' y' : Option β}

theorem rel_bind {f : α → Option γ} {g : β → Option δ} (h : Option.Rel R x x')
    (hf : ∀ a b, R a b → Option.Rel S (f a) (g b)) : Option.Rel S (x.bind f) (x'.bind g) := by
  cases h with
  | none => exact .none
  | some h => exact hf _ _ h

theorem rel_map {f : α → γ} {g : β → δ} (h : Option.Rel R x x')
    (hf : ∀ a b, R a b → S (f a) (g b)) : Option.Rel S (x.map f) (x'.map g) := by
  cases h with
  | none => exact .none
  | some h => exact .some (hf _ _ h)

theorem rel_or (h : Option.Rel R x x') (hy : Option.Rel R y y') :
    Option.Rel R (x.or y) (x'.or y') := by
  cases h with
  | none => exact hy
  | some h => exact .some h

theorem rel_ite {p q : Prop} [Decidable p] [Decidable q] (hp : p ↔ q) (h : Option.Rel R x x')
    (hy : Option.Rel R y y') : Option.Rel R (if p then x else y) (if q then x' else y') := by
  by_cases hq : q
  · rwa [if_pos hq, if_pos (hp.2 hq)]
  · rwa [if_neg hq, if_neg (mt hp.1 hq)]

theorem forall₂_toList (h : Option.Rel R x x') : List.Forall₂ R x.toList x'.toList := by
  cases h with
  | none => exact .nil
  | some h => exact .cons h .nil

end

section

variable {left : List α} {right : List β}

theorem forall₂_map {f : α → γ} {g : β → δ} (h : List.Forall₂ R left right)
    (hf : ∀ a b, R a b → S (f a) (g b)) : List.Forall₂ S (left.map f) (right.map g) :=
  List.rel_map (fun _ _ hr => hf _ _ hr) h

theorem forall₂_mergeSort {le : α → α → Bool} {le' : β → β → Bool}
    (h : List.Forall₂ R left right)
    (hle : ∀ a b a' b', R a b → R a' b' → le a a' = le' b b') :
    List.Forall₂ R (left.mergeSort le) (right.mergeSort le') := by
  have hzip : ∀ pair ∈ left.zip right, R pair.1 pair.2 :=
    fun pair hm => List.forall₂_zip h hm
  have hlength := h.length_eq
  have hfst : (left.zip right).map Prod.fst = left := List.map_fst_zip (Nat.le_of_eq hlength)
  have hsnd : (left.zip right).map Prod.snd = right :=
    List.map_snd_zip (Nat.le_of_eq hlength.symm)
  let order (pair pair' : α × β) : Bool := le pair.1 pair'.1
  have hleft : ((left.zip right).mergeSort order).map Prod.fst = left.mergeSort le := by
    rw [List.map_mergeSort (s := le) fun _ _ _ _ => rfl, hfst]
  have hright : ((left.zip right).mergeSort order).map Prod.snd = right.mergeSort le' := by
    rw [List.map_mergeSort (s := le') fun pair hp pair' hp' =>
      hle _ _ _ _ (hzip pair hp) (hzip pair' hp'), hsnd]
  rw [← hleft, ← hright, List.forall₂_map_left_iff, List.forall₂_map_right_iff, List.forall₂_same]
  exact fun pair hm => hzip pair (List.mem_mergeSort.1 hm)

theorem map_eq_of_forall₂ {f : α → γ} {g : β → γ} (h : List.Forall₂ R left right)
    (hf : ∀ a b, R a b → f a = g b) : left.map f = right.map g := by
  rw [← List.forall₂_eq_eq_eq]
  exact forall₂_map h hf

theorem any_eq_of_forall₂ {p : α → Bool} {q : β → Bool} (h : List.Forall₂ R left right)
    (hf : ∀ a b, R a b → p a = q b) : left.any p = right.any q := by
  have hmap := map_eq_of_forall₂ h hf
  rw [← Function.id_comp p, ← Function.id_comp q, ← List.any_map, ← List.any_map, hmap]

theorem all_eq_of_forall₂ {p : α → Bool} {q : β → Bool} (h : List.Forall₂ R left right)
    (hf : ∀ a b, R a b → p a = q b) : left.all p = right.all q := by
  rw [List.all_eq_not_any_not, List.all_eq_not_any_not,
    any_eq_of_forall₂ h fun a b hr => congrArg not (hf a b hr)]

theorem rel_getElem? (h : List.Forall₂ R left right) (index : Nat) :
    Option.Rel R left[index]? right[index]? := by
  induction h generalizing index with
  | nil => exact .none
  | cons h _ ih =>
    cases index with
    | zero => exact .some h
    | succ index => exact ih index

theorem forall₂_zipIdx (h : List.Forall₂ R left right) (start : Nat) :
    List.Forall₂ (fun entry entry' => R entry.1 entry'.1 ∧ entry.2 = entry'.2)
      (left.zipIdx start) (right.zipIdx start) := by
  induction h generalizing start with
  | nil => exact .nil
  | cons h _ ih => exact .cons ⟨h, rfl⟩ (ih (start + 1))

end

/-- Trees of one shape whose labels are related node by node. -/
inductive Tree.Related (R : α → β → Prop) : Tree α → Tree β → Prop where
  | node {label : α} {label' : β} {children : List (Tree α)} {children' : List (Tree β)}
      (hl : R label label') (hc : List.Forall₂ (Tree.Related R) children children') :
      Tree.Related R (.node label children) (.node label' children')

namespace Tree.Related

variable {tree : Tree α} {tree' : Tree β}

theorem label (h : Related R tree tree') : R tree.label tree'.label := by
  cases h with
  | node hl _ => exact hl

theorem children (h : Related R tree tree') :
    List.Forall₂ (Related R) tree.children tree'.children := by
  cases h with
  | node _ hc => exact hc

theorem relabel {f : α → α} {g : β → β} (h : Related R tree tree')
    (hf : ∀ a b, R a b → R (f a) (g b)) : Related R (tree.relabel f) (tree'.relabel g) := by
  cases h with
  | node hl hc => exact .node (hf _ _ hl) hc

theorem map {δ : Type} {S : γ → δ → Prop} {f : α → γ} {g : β → δ} (h : Related R tree tree')
    (hf : ∀ a b, R a b → S (f a) (g b)) : Related S (tree.map f) (tree'.map g) := by
  induction tree using induct generalizing tree' with
  | h label children ih =>
    cases h with
    | node hl hc =>
      rw [map_node, map_node]
      refine .node (hf _ _ hl) ?_
      induction hc with
      | nil => exact .nil
      | cons hfirst _ ihc =>
        exact .cons (ih _ List.mem_cons_self hfirst)
          (ihc fun child hm => ih child (List.mem_cons_of_mem _ hm))

theorem eq {tree tree' : Tree α} (h : Related Eq tree tree') : tree = tree' := by
  induction tree using induct generalizing tree' with
  | h label children ih =>
    cases h with
    | node hl hc =>
      rw [hl]
      congr 1
      induction hc with
      | nil => rfl
      | cons hfirst _ ihc =>
        rw [ih _ List.mem_cons_self hfirst,
          ihc fun child hm => ih child (List.mem_cons_of_mem _ hm)]

/-- A tree that is related to itself pairs each of its nodes with that node. -/
theorem self {R : α → α → Prop} {tree : Tree α} (h : Related R tree tree) :
    Related (fun label label' => label = label' ∧ R label label) tree tree := by
  induction tree using induct with
  | h label children ih =>
    cases h with
    | node hl hc =>
      rw [List.forall₂_same] at hc
      exact .node ⟨rfl, hl⟩ (List.forall₂_same.2 fun child hm => ih child hm (hc child hm))

/-- What the labels show alike, the trees show alike. -/
theorem map_eq {f : α → γ} {g : β → γ} (h : Related R tree tree')
    (hf : ∀ a b, R a b → f a = g b) : tree.map f = tree'.map g :=
  (h.map hf).eq

end Tree.Related

end CodeOutline
