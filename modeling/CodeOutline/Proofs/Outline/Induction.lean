import CodeOutline.Proofs.Outline.Opening

namespace CodeOutline.Outline

open Slice (IsTail)

variable {levels : Nat} {slice body inner after : Slice} {relation : Relation} {outline : Outline}
  {bodies : List Outline} {keyword : String} {P : Nat → Slice → Outline → Prop}

/-- The statements in a body, which the level below reads. -/
def statementsBelow (levels : Nat) (inner : Slice) : List Outline :=
  (below levels).elim [] (·.block inner)

theorem mem_statementsBelow {child : Outline} :
    child ∈ statementsBelow levels inner ↔ ∃ next, levels = next + 1 ∧
      ∃ head ∈ inner.heads .topLevel, statement? next (below next) head = some child := by
  cases levels with
  | zero =>
    constructor
    · intro h
      cases h
    · rintro ⟨next, hl, _⟩
      cases hl
  | succ next =>
    rw [statementsBelow, below, Option.elim_some, mem_level_block]
    constructor
    · exact fun h => ⟨next, rfl, h⟩
    · rintro ⟨_, ⟨⟩, h⟩
      exact h

/-- A body, with what follows it. The property holds of the statements in it. -/
inductive Body (P : Nat → Slice → Outline → Prop) (levels : Nat) (slice : Slice) :
    Outline → Slice → Prop where
  | block {relation : Relation} {body inner after : Slice}
      (hr : bodyRange? levels slice = some (body, inner, after))
      (hs : ∀ next, levels = next + 1 → ∀ head ∈ inner.heads .topLevel, ∀ child,
        statement? next (below next) head = some child → P next head child) :
      Body P levels slice (.node ⟨.blockStatement, relation, body.start, none, .absent⟩
        (statementsBelow levels inner)) after

/-- A body or a further conditional of a chain, of which the property holds. -/
inductive Branch (P : Nat → Slice → Outline → Prop) (levels : Nat) (slice : Slice) :
    Outline → Slice → Prop where
  | body {outline : Outline} {after : Slice} (h : Body P levels slice outline after) :
      Branch P levels slice outline after
  | chained {next : Nat} {first after : Slice} {conditional : Outline} (hl : levels = next + 1)
      (hn : slice.next? = some first)
      (hc : conditional? next (below next) first = some (conditional, after))
      (hp : P next first conditional) :
      Branch P levels slice
        (conditional.relabel fun item => { item with relation := .alternative }) after

/-- The bodies of a heading, given what follows it, and what follows them. -/
inductive Branches (P : Nat → Slice → Outline → Prop) (levels : Nat) :
    Slice → List Outline → Slice → Prop where
  | none (slice : Slice) : Branches P levels slice [] slice
  | one {slice after : Slice} {body : Outline} (hb : Body P levels slice body after) :
      Branches P levels slice [body] after
  | two {slice middle other after : Slice} {body alternative : Outline}
      (hb : Body P levels slice body middle)
      (he : middle.next?.bind (Slice.after? "else") = some other)
      (ha : Branch P levels other alternative after) :
      Branches P levels slice [body, alternative] after

/-- Where the bodies of a heading begin, given what follows it: there, or else behind the `else` that
follows the first one. -/
inductive Begins (levels : Nat) (slice : Slice) : Slice → Prop where
  | first : Begins levels slice slice
  | second {body inner middle other : Slice}
      (hr : bodyRange? levels slice = some (body, inner, middle))
      (he : middle.next?.bind (Slice.after? "else") = some other) : Begins levels slice other

theorem Begins.isTail {other : Slice} (h : Begins levels slice other) : IsTail other slice := by
  cases h with
  | first => exact IsTail.refl _
  | second hr he => exact (isTail_of_else he).trans (isPart_of_bodyRange? hr).2.1

theorem Branches.exists_branch {tree : Outline} (h : Branches P levels slice bodies after)
    (hm : tree ∈ bodies) :
    ∃ other rest, Begins levels slice other ∧ Branch P levels other tree rest := by
  cases h with
  | none => exact absurd hm List.not_mem_nil
  | one hb =>
    rw [List.mem_singleton.1 hm]
    exact ⟨_, _, .first, .body hb⟩
  | two hb he ha =>
    simp only [List.mem_cons, List.not_mem_nil, or_false] at hm
    rcases hm with rfl | rfl
    · exact ⟨_, _, .first, .body hb⟩
    · obtain ⟨hr, _⟩ := hb
      exact ⟨_, _, .second hr he, ha⟩

section

variable (hs : ∀ next, levels = next + 1 → ∀ slice outline,
    statement? next (below next) slice = some outline → P next slice outline)
include hs

theorem body_of_body? (h : body? levels (below levels) relation slice = some (outline, after)) :
    Body P levels slice outline after := by
  rw [body?_eq, Option.map_eq_some_iff] at h
  obtain ⟨⟨body, inner, rest⟩, hr, he⟩ := h
  cases he
  exact .block hr fun next hl head _ child hchild => hs next hl head child hchild

variable (hc : ∀ next, levels = next + 1 → ∀ slice outline after,
    conditional? next (below next) slice = some (outline, after) → P next slice outline)
include hc

theorem branches_of_bodies (h : Bodies levels (below levels) keyword slice bodies after) :
    Branches P levels slice bodies after := by
  cases h with
  | none => exact .none _
  | one hb => exact .one (body_of_body? hs hb)
  | two _ hb he ha =>
    refine .two (body_of_body? hs hb) he ?_
    rcases alternative?_spec ha with ⟨next, conditional, first, hl, hn, hfound, rfl⟩ | ⟨_, hbody⟩
    · exact .chained hl hn hfound (hc next hl first conditional _ hfound)
    · exact .body (body_of_body? hs hbody)

end

section

variable
  (declared : ∀ {levels : Nat} {slice : Slice} {declaration : Declaration},
    Declaration.read? slice = some declaration → P levels slice (ofDeclaration .statement declaration))
  (returned : ∀ {levels : Nat} {slice : Slice} {outline : Outline},
    return? slice = some outline → P levels slice outline)
  (called : ∀ {levels : Nat} {slice : Slice} {outline : Outline},
    callStatement? slice = some outline → P levels slice outline)
  (headed : ∀ {levels : Nat} {slice after : Slice} {outline : Outline}
    (h : Headed levels (below levels) slice outline after),
    Branches P levels h.heading.after h.bodies after → P levels slice outline)
include declared returned called headed

/-- A chain of `else if` reaches conditionals that begin no statement of their block, so they are
part of the induction. -/
theorem holds_of_level (levels : Nat) :
    (∀ slice outline, statement? levels (below levels) slice = some outline →
      P levels slice outline) ∧
    ∀ slice outline after, conditional? levels (below levels) slice = some (outline, after) →
      P levels slice outline := by
  induction levels using Nat.strong_induction_on with
  | _ levels ih =>
    have hheaded {slice after : Slice} {outline : Outline}
        (h : Headed levels (below levels) slice outline after) : P levels slice outline :=
      headed h (branches_of_bodies (fun next hl => (ih next (hl ▸ Nat.lt_succ_self next)).1)
        (fun next hl => (ih next (hl ▸ Nat.lt_succ_self next)).2) h.follow)
    refine ⟨fun slice outline h => ?_, fun slice outline after h => ?_⟩
    · cases statement?_spec h with
      | declared h he => exact he ▸ declared h
      | returned _ h => exact returned h
      | called h => exact called h
      | headed h => exact hheaded h
    · exact (conditional?_spec h).elim hheaded

theorem statement?_induct (h : statement? levels (below levels) slice = some outline) :
    P levels slice outline :=
  (holds_of_level declared returned called headed levels).1 slice outline h

end

end CodeOutline.Outline
