import CodeOutline.Proofs.Outline.Budget
import CodeOutline.Proofs.Shape.Start

namespace CodeOutline.Outline

/-- The conditional after the `else` of the conditional that a text begins with. -/
def follow? (levels : Nat) (slice : Slice) : Option Slice :=
  slice.heading?.bind fun heading =>
    if heading.name.text = "if" then
      (bodyRange? (levels + 1) heading.after).bind fun (_, _, after) =>
        (after.next?.bind (Slice.after? "else")).bind fun other =>
          other.next?.bind fun next =>
            if (conditional? levels (below levels) next).isSome then some next else none
    else none

def chain : Nat → Slice → List (Nat × Slice)
  | 0, slice => [(0, slice)]
  | levels + 1, slice => (levels + 1, slice) :: (follow? levels slice).toList.flatMap (chain levels)

/-- The body of the `else` branch that follows a body, unless a conditional does. -/
def branch? (levels : Nat) (after : Slice) : Option (Slice × Slice) :=
  (after.next?.bind (Slice.after? "else")).bind fun other =>
    if other.next?.bind (conditional? levels (below levels)) = none then
      (bodyRange? (levels + 1) other).map fun (body, inner, _) => (body, inner)
    else none

/-- The bodies of a conditional or a loop, with their blocks. -/
def opened (levels : Nat) (slice : Slice) : List (Slice × Slice) :=
  slice.heading?.toList.flatMap fun heading =>
    if heading.name.text ∈ ["if", "for", "while"] then
      (bodyRange? (levels + 1) heading.after).toList.flatMap fun (body, inner, after) =>
        (body, inner) :: if heading.name.text = "if" then (branch? levels after).toList else []
    else []

/-- The bodies that are read for a statement, with the levels of their blocks. -/
def bodies (levels : Nat) (head : Slice) : List (Nat × Slice × Slice) :=
  (chain levels head).flatMap fun (levels', last) =>
    match levels' with
    | 0 => []
    | next + 1 => (opened next last).map (next, ·)

def entered (levels : Nat) (block : Slice) : List (Nat × Slice) :=
  (block.heads .topLevel).flatMap fun head =>
    if (statement? levels (below levels) head).isSome then
      (bodies levels head).map fun (levels', _, inner) => (levels', inner)
    else []

/-- A block and what is visited from it; each block is at a level below the one it is entered from.
-/
def visitedFrom : Nat → Nat × Slice → List (Nat × Slice)
  | 0, _ => []
  | fuel + 1, (levels, block) =>
    (levels, block) :: (entered levels block).flatMap (visitedFrom fuel)

def visited (text : Slice) : List (Nat × Slice) :=
  (FunctionDefinition.findAll text).flatMap fun function =>
    visitedFrom (maxNesting + 1) (maxNesting, function.body)

variable {levels levels' fuel : Nat} {text slice block head last body inner next : Slice}
  {entry found : Nat × Slice}

theorem follow?_eq_some : follow? levels slice = some next ↔
    ∃ heading body inner after other, slice.heading? = some heading ∧ heading.name.text = "if" ∧
      bodyRange? (levels + 1) heading.after = some (body, inner, after) ∧
      after.next?.bind (Slice.after? "else") = some other ∧ other.next? = some next ∧
      (conditional? levels (below levels) next).isSome := by
  simp only [follow?, Option.bind_eq_some_iff, Option.ite_none_right_eq_some, Prod.exists]
  constructor
  · rintro ⟨heading, hh, hk, body, inner, after, hb, other, he, next', hn, hc, hs⟩
    cases hs
    exact ⟨heading, body, inner, after, other, hh, hk, hb, by simpa using he, hn, hc⟩
  · rintro ⟨heading, body, inner, after, other, hh, hk, hb, he, hn, hc⟩
    exact ⟨heading, hh, hk, body, inner, after, hb, other, by simpa using he, next, hn, hc, rfl⟩

theorem mem_chain_self (levels : Nat) (slice : Slice) : (levels, slice) ∈ chain levels slice := by
  cases levels <;> exact List.mem_cons_self

theorem mem_chain : (levels', last) ∈ chain levels slice ↔ Chained levels slice levels' last := by
  constructor
  · intro h
    induction levels generalizing slice with
    | zero =>
      cases List.mem_singleton.1 h
      exact .refl _ _
    | succ levels ih =>
      rcases List.mem_cons.1 h with h | h
      · cases h
        exact .refl _ _
      · obtain ⟨next, hf, hm⟩ := List.mem_flatMap.1 h
        obtain ⟨_, _, _, _, _, hh, hk, hb, he, hn, hc⟩ :=
          follow?_eq_some.1 (Option.mem_toList.1 hf)
        exact .next hh hk hb he hn hc (ih hm)
  · intro h
    induction h with
    | refl levels slice => exact mem_chain_self levels slice
    | next hh hk hb he hn hc _ ih =>
      have hf := follow?_eq_some.2 ⟨_, _, _, _, _, hh, hk, hb, he, hn, hc⟩
      exact List.mem_cons_of_mem _ (List.mem_flatMap.2 ⟨_, Option.mem_toList.2 hf, ih⟩)

theorem branch?_eq_some {after : Slice} : branch? levels after = some (body, inner) ↔
    ∃ other rest, after.next?.bind (Slice.after? "else") = some other ∧
      other.next?.bind (conditional? levels (below levels)) = none ∧
        bodyRange? (levels + 1) other = some (body, inner, rest) := by
  rw [branch?, Option.bind_eq_some_iff]
  constructor
  · rintro ⟨other, he, h⟩
    split at h
    · next hc =>
      obtain ⟨⟨body', inner', rest⟩, hb, hi⟩ := Option.map_eq_some_iff.1 h
      cases hi
      exact ⟨other, rest, he, hc, hb⟩
    · cases h
  · rintro ⟨other, rest, he, hc, hb⟩
    exact ⟨other, he, by rw [if_pos hc, hb]; rfl⟩

theorem mem_opened : (body, inner) ∈ opened levels slice ↔ Opens levels slice body inner := by
  simp only [opened, List.mem_flatMap, Option.mem_toList]
  constructor
  · rintro ⟨heading, hh, hm⟩
    split at hm
    · next hk =>
      obtain ⟨⟨body', inner', after⟩, hb, hm⟩ := List.mem_flatMap.1 hm
      rw [Option.mem_toList] at hb
      rcases List.mem_cons.1 hm with he | hm
      · cases he
        exact .body hh hk hb
      · split at hm
        · next hif =>
          obtain ⟨other, rest, he, hc, ha⟩ := branch?_eq_some.1 (Option.mem_toList.1 hm)
          exact .alternative hh hif hb he hc ha
        · cases hm
    · cases hm
  · intro h
    cases h with
    | body hh hk hb =>
      refine ⟨_, hh, ?_⟩
      rw [if_pos hk]
      exact List.mem_flatMap.2 ⟨_, Option.mem_toList.2 hb, List.mem_cons_self⟩
    | alternative hh hk hb he hc ha =>
      refine ⟨_, hh, ?_⟩
      rw [if_pos (by rw [hk]; decide)]
      refine List.mem_flatMap.2 ⟨_, Option.mem_toList.2 hb, List.mem_cons_of_mem _ ?_⟩
      rw [if_pos hk]
      exact Option.mem_toList.2 (branch?_eq_some.2 ⟨_, _, he, hc, ha⟩)

theorem mem_bodies : (levels', body, inner) ∈ bodies levels head ↔
    ∃ last, Chained levels head (levels' + 1) last ∧ Opens levels' last body inner := by
  rw [bodies, List.mem_flatMap]
  constructor
  · rintro ⟨⟨count, last⟩, hc, hm⟩
    cases count with
    | zero => cases hm
    | succ next =>
      obtain ⟨found, ho, he⟩ := List.mem_map.1 hm
      cases he
      exact ⟨last, mem_chain.1 hc, mem_opened.1 ho⟩
  · rintro ⟨last, hc, ho⟩
    exact ⟨_, mem_chain.2 hc, List.mem_map_of_mem (mem_opened.2 ho)⟩

theorem mem_entered : (levels', inner) ∈ entered levels block ↔ ∃ head ∈ block.heads .topLevel,
    (statement? levels (below levels) head).isSome ∧
      ∃ last body, Chained levels head (levels' + 1) last ∧ Opens levels' last body inner := by
  rw [entered, List.mem_flatMap]
  constructor
  · rintro ⟨head, hh, hm⟩
    split at hm
    · next hs =>
      obtain ⟨⟨count, body, inner'⟩, hb, he⟩ := List.mem_map.1 hm
      cases he
      obtain ⟨last, hc, ho⟩ := mem_bodies.1 hb
      exact ⟨head, hh, hs, last, body, hc, ho⟩
    · cases hm
  · rintro ⟨head, hh, hs, last, body, hc, ho⟩
    refine ⟨head, hh, ?_⟩
    rw [if_pos hs]
    exact List.mem_map.2 ⟨_, mem_bodies.2 ⟨last, hc, ho⟩, rfl⟩

theorem lt_of_mem_entered (h : entry ∈ entered levels block) : entry.1 < levels := by
  obtain ⟨levels', inner⟩ := entry
  obtain ⟨_, _, _, _, _, hc, _⟩ := mem_entered.1 h
  exact hc.levels_le

theorem visits_of_mem_visitedFrom (hv : Visits text entry.1 entry.2)
    (h : found ∈ visitedFrom fuel entry) : Visits text found.1 found.2 := by
  induction fuel generalizing entry with
  | zero => cases h
  | succ fuel ih =>
    obtain ⟨levels, block⟩ := entry
    rcases List.mem_cons.1 h with rfl | h
    · exact hv
    · obtain ⟨⟨levels', inner⟩, he, hm⟩ := List.mem_flatMap.1 h
      obtain ⟨head, hh, hs, last, body, hc, ho⟩ := mem_entered.1 he
      exact ih (.body hv hh hs hc ho) hm

theorem mem_visitedFrom_of_entered {next : Nat × Slice} (hlt : entry.1 < fuel)
    (h : found ∈ visitedFrom fuel entry) (hn : next ∈ entered found.1 found.2) :
    next ∈ visitedFrom fuel entry := by
  induction fuel generalizing entry with
  | zero => cases h
  | succ fuel ih =>
    obtain ⟨levels, block⟩ := entry
    simp only at hlt
    apply List.mem_cons_of_mem
    rw [List.mem_flatMap]
    rcases List.mem_cons.1 h with rfl | h
    · have hlevel := lt_of_mem_entered hn
      obtain ⟨count, rfl⟩ : ∃ count, fuel = count + 1 := ⟨fuel - 1, by omega⟩
      exact ⟨next, hn, List.mem_cons_self⟩
    · obtain ⟨middle, he, hm⟩ := List.mem_flatMap.1 h
      have hlevel := lt_of_mem_entered he
      exact ⟨middle, he, ih (by omega) hm⟩

theorem mem_visited : (levels, block) ∈ visited text ↔ Visits text levels block := by
  rw [visited, List.mem_flatMap]
  constructor
  · rintro ⟨function, hf, hm⟩
    obtain ⟨head, hh, hr⟩ := FunctionDefinition.mem_findAll.1 hf
    refine visits_of_mem_visitedFrom ?_ hm
    exact .function hh hr
  · intro h
    induction h with
    | @function head function hh hr =>
      exact ⟨function, FunctionDefinition.mem_findAll.2 ⟨head, hh, hr⟩, List.mem_cons_self⟩
    | body _ hh hs hc ho ih =>
      obtain ⟨function, hf, hm⟩ := ih
      refine ⟨function, hf, mem_visitedFrom_of_entered (Nat.lt_succ_self _) hm ?_⟩
      exact mem_entered.2 ⟨_, hh, hs, _, _, hc, ho⟩

theorem clears_iff {offset : Nat} : (∀ entry ∈ chain levels head,
      ∀ heading ∈ entry.2.heading?, heading.after.start ≤ offset) ∧
      (∀ entry ∈ bodies levels head, entry.2.2.stop ≤ offset) ↔ Clears levels head offset := by
  constructor
  · rintro ⟨hchain, hbodies⟩ levels' last hc
    refine ⟨fun heading hh => hchain _ (mem_chain.2 hc) heading hh, ?_⟩
    rintro next body inner rfl ho
    exact hbodies _ (mem_bodies.2 ⟨last, hc, ho⟩)
  · intro h
    constructor
    · rintro ⟨levels', last⟩ hm heading hh
      exact (h _ _ (mem_chain.1 hm)).1 heading hh
    · rintro ⟨next, body, inner⟩ hm
      obtain ⟨last, hc, ho⟩ := mem_bodies.1 hm
      exact (h _ _ hc).2 next body inner rfl ho

instance (levels : Nat) (head : Slice) (offset : Nat) : Decidable (Clears levels head offset) :=
  decidable_of_iff _ clears_iff

/-- Whether a definition ends before a later offset. -/
def EndsBefore (head : Slice) (offset : Nat) : Prop :=
  ∀ function ∈ FunctionDefinition.read? head, function.body.stop ≤ offset

instance (head : Slice) (offset : Nat) : Decidable (EndsBefore head offset) :=
  inferInstanceAs (Decidable (∀ function ∈ FunctionDefinition.read? head, _))

theorem inSequence_iff {stop : Slice → Nat} :
    ((text.heads .topLevel).Pairwise (fun left right => (item? text left).isSome →
        (item? text right).isSome → stop left ≤ right.start ∧ EndsBefore left right.start) ∧
      ∀ entry ∈ visited text, (entry.2.heads .topLevel).Pairwise fun left right =>
        (statement? entry.1 (below entry.1) left).isSome →
          (statement? entry.1 (below entry.1) right).isSome →
            stop left ≤ right.start ∧ Clears entry.1 left right.start) ↔
      InSequence stop text := by
  constructor
  · rintro ⟨hitems, hstatements⟩
    exact ⟨hitems, fun levels block hv => hstatements (levels, block) (mem_visited.2 hv)⟩
  · intro h
    refine ⟨h.items, ?_⟩
    rintro ⟨levels, block⟩ hm
    exact h.statements levels block (mem_visited.1 hm)

instance (stop : Slice → Nat) (text : Slice) : Decidable (InSequence stop text) :=
  decidable_of_iff _ inSequence_iff

/-- A text with bodies of both forms that is read in sequence. -/
def branches : String :=
  "int f() \x7b if (a) \x7b g(); \x7d else if (b) h(); for (;;) k(); return n; \x7d"

end CodeOutline.Outline
