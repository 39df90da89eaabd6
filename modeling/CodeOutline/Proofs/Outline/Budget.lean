import CodeOutline.Outline.Program
import CodeOutline.Proofs.Order
import CodeOutline.Proofs.Outline.Opening
import Mathlib.Algebra.GroupWithZero.Nat

namespace CodeOutline

open Slice (IsPart IsTail)

namespace Outline

/-- Whether what is read for a statement of a block ends before a later offset: the headings of the
statement and of the chain it begins, and the blocks they open. -/
def Clears (levels : Nat) (head : Slice) (offset : Nat) : Prop :=
  ∀ levels' last, Chained levels head levels' last →
    (∀ heading, last.heading? = some heading → heading.after.start ≤ offset) ∧
      ∀ next body inner, levels' = next + 1 → Opens next last body inner → inner.stop ≤ offset

/-- The global declaration that a slice begins with, unless it stands in a function. -/
def global? (text slice : Slice) : Option Declaration :=
  (Declaration.read? slice).filter fun declaration =>
    !(FunctionDefinition.findAll text).any fun function =>
      function.extent.contains declaration.start

def item? (text slice : Slice) : Option Outline :=
  ((FunctionDefinition.read? slice).map ofFunction).or
    ((global? text slice).map (ofDeclaration .item))

/-- Whether each statement that is read begins after the earlier ones of the same block have been
read to their ends, where `stop` tells how far one without a heading is read. -/
structure InSequence (stop : Slice → Nat) (text : Slice) : Prop where
  items : (text.heads .topLevel).Pairwise fun left right =>
    (item? text left).isSome → (item? text right).isSome → stop left ≤ right.start ∧
      ∀ function, FunctionDefinition.read? left = some function →
        function.body.stop ≤ right.start
  statements : ∀ levels block, Visits text levels block →
    (block.heads .topLevel).Pairwise fun left right =>
      (statement? levels (below levels) left).isSome →
        (statement? levels (below levels) right).isSome →
          stop left ≤ right.start ∧ Clears levels left right.start

def weigh (weight : Item → Nat) (outlines : List Outline) : Nat :=
  ((outlines.flatMap Tree.walk).map weight).sum

section

variable {weight : Item → Nat}

@[simp] theorem weigh_nil : weigh weight [] = 0 := rfl

@[simp] theorem weigh_append (left right : List Outline) :
    weigh weight (left ++ right) = weigh weight left + weigh weight right := by
  simp only [weigh, List.flatMap_append, List.map_append, List.sum_append]

theorem weigh_cons (outline : Outline) (others : List Outline) :
    weigh weight (outline :: others) = weigh weight [outline] + weigh weight others :=
  weigh_append [outline] others

@[simp] theorem weigh_node (item : Item) (children : List Outline) :
    weigh weight [.node item children] = weight item + weigh weight children := by
  simp [weigh, Tree.walk_node]

theorem weigh_perm {left right : List Outline} (h : left.Perm right) :
    weigh weight left = weigh weight right :=
  ((h.flatMap_right _).map _).sum_nat

end

/-- What nodes weigh, and for how much there is room in front of each offset. Every piece of a text
has room for what is read from it, bodies aside. -/
structure Budget where
  weight : Item → Nat
  limit : Nat → Nat
  stop : Slice → Nat
  /-- The most that the node of a body weighs. -/
  block : Nat
  mono : ∀ {left right}, left ≤ right → limit left ≤ limit right
  stop_le : ∀ {slice : Slice}, slice.start < slice.stop → stop slice ≤ slice.stop
  block_le : ∀ {relation : Relation} {offset : Nat},
    relation ∈ [.body, .consequent, .alternative] →
      weight ⟨.blockStatement, relation, offset, none, .absent⟩ ≤ block
  relabel : ∀ {item : Item}, item.relation = .statement →
    weight { item with relation := .alternative } ≤ weight item
  declared : ∀ {slice : Slice} {declaration : Declaration} {relation : Relation},
    Declaration.read? slice = some declaration →
      limit slice.start + weigh weight [ofDeclaration relation declaration] ≤ limit (stop slice)
  returned : ∀ {slice : Slice} {outline : Outline}, Declaration.read? slice = none →
    return? slice = some outline → limit slice.start + weigh weight [outline] ≤ limit (stop slice)
  called : ∀ {slice : Slice} {heading : Heading}, slice.heading? = some heading →
    limit slice.start + weigh weight [ofCall .statement heading.name heading.inner] ≤
      limit heading.after.start
  headed : ∀ {levels : Nat} {below : Option Level} {slice after : Slice} {outline : Outline}
    (h : Headed levels below slice outline after),
      limit slice.start + (weight h.item + weigh weight h.leaves + 2 * block) ≤
        limit h.heading.after.start
  function : ∀ {slice : Slice} {function : FunctionDefinition},
    FunctionDefinition.read? slice = some function →
      limit slice.start + (weight (ofFunction function).label +
        weigh weight (function.parameters.map ofParameter) + block) ≤ limit function.body.start

namespace Budget

variable (budget : Budget) {levels : Nat} {text slice block body inner after : Slice}
  {outline : Outline} {offset : Nat} {relation : Relation}

/-- Whether there is room in a block for what its statements weigh. -/
def Fits (levels : Nat) (block : Slice) : Prop :=
  budget.limit block.start + weigh budget.weight ((level levels).block block) ≤
    budget.limit block.stop

variable {budget}

theorem weigh_body (hr : relation ∈ [.body, .consequent, .alternative])
    (h : body? levels (below levels) relation slice = some (outline, after)) :
    ∃ body inner, bodyRange? levels slice = some (body, inner, after) ∧
      weigh budget.weight [outline] ≤
        budget.block + weigh budget.weight ((below levels).elim [] (·.block inner)) := by
  obtain ⟨body, inner, hb, rfl⟩ := body?_spec h
  refine ⟨body, inner, hb, ?_⟩
  rw [weigh_node]
  exact Nat.add_le_add_right (budget.block_le hr) _

theorem Fits.between (h : budget.Fits levels inner) {start : Nat} (hs : start ≤ inner.start)
    (ho : inner.stop ≤ offset) :
    budget.limit start + weigh budget.weight ((level levels).block inner) ≤
      budget.limit offset := by
  have hl := budget.mono hs
  have hr := budget.mono ho
  rw [Fits] at h
  omega

theorem weigh_bodies_zero {keyword : String} {bodies : List Outline}
    (h : Bodies 0 (below 0) keyword slice bodies after) :
    weigh budget.weight bodies ≤ 2 * budget.block := by
  cases h with
  | none => exact Nat.zero_le _
  | one hb =>
    obtain ⟨_, _, _, hw⟩ := weigh_body (bodyRelation_mem keyword) hb
    change _ ≤ budget.block + 0 at hw
    omega
  | two _ hb _ ha =>
    obtain ⟨_, _, _, hw⟩ := weigh_body (by simp) hb
    rcases alternative?_spec ha with ⟨_, _, _, hn, _⟩ | ⟨_, ha⟩
    · cases hn
    obtain ⟨_, _, _, hw'⟩ := weigh_body (by simp) ha
    change _ ≤ budget.block + 0 at hw hw'
    rw [weigh_cons]
    omega

variable (budget) in
/-- Whether the blocks that are read for a statement fit. -/
def FitsBelow (levels : Nat) (slice : Slice) : Prop :=
  ∀ levels' last next body inner, Chained levels slice levels' last → levels' = next + 1 →
    Opens next last body inner → budget.Fits next inner

theorem weigh_relabel (h : Headed levels (below levels) slice outline after) :
    weigh budget.weight [outline.relabel fun item => { item with relation := .alternative }] ≤
      weigh budget.weight [outline] := by
  rw [h.outline_eq, Tree.relabel, weigh_node, weigh_node]
  exact Nat.add_le_add_right (budget.relabel h.relation) _

/-- The bodies of a heading fit if a conditional that follows an `else` does. -/
theorem limit_bodies {heading : Heading} {bodies : List Outline} (hh : slice.heading? = some heading)
    (hk : heading.name.text ∈ ["if", "for", "while"])
    (h : Bodies (levels + 1) (below (levels + 1)) heading.name.text heading.after bodies after)
    (hfit : budget.FitsBelow (levels + 1) slice) (hclear : Clears (levels + 1) slice offset)
    (hchain : ∀ next conditional rest, conditional? levels (below levels) next =
      some (conditional, rest) → budget.FitsBelow levels next → Clears levels next offset →
        budget.limit next.start + weigh budget.weight [conditional] ≤ budget.limit offset) :
    budget.limit heading.after.start + weigh budget.weight bodies ≤
      budget.limit offset + 2 * budget.block := by
  obtain ⟨hhead, hopen⟩ := hclear _ slice (.refl _ _)
  have hfirst {body inner} (ho : Opens levels slice body inner) : budget.Fits levels inner :=
    hfit _ _ _ _ _ (.refl _ _) rfl ho
  cases h with
  | none =>
    have := budget.mono (hhead _ hh)
    rw [weigh_nil]
    omega
  | one hb =>
    obtain ⟨body, inner, hb, hw⟩ := weigh_body (bodyRelation_mem _) hb
    have ho := Opens.body hh hk hb
    have := (hfirst ho).between (isPart_of_bodyRange? hb).1.start_le (hopen _ _ _ rfl ho)
    change _ ≤ budget.block + weigh budget.weight ((level levels).block inner) at hw
    omega
  | two hi hb he ha =>
    obtain ⟨body, inner, hb, hw⟩ := weigh_body (by simp) hb
    obtain ⟨hpart, _, hstop⟩ := isPart_of_bodyRange? hb
    have ho := (isTail_of_else he).isPart.start_le
    change _ ≤ budget.block + weigh budget.weight ((level levels).block inner) at hw
    rw [weigh_cons]
    rcases alternative?_spec ha with ⟨_, conditional, next, hl, hn, hc, rfl⟩ | ⟨hc, ha⟩
    · cases hl
      have hstart := (Slice.next?_spec hn).2.1.isPart.start_le
      have hnext {levels' last} (hs : Chained levels next levels' last) :
          Chained (levels + 1) slice levels' last := .next hh hi hb he hn (by rw [hc]; rfl) hs
      have hrest := hchain next conditional _ hc
        (fun _ _ _ _ _ hs => hfit _ _ _ _ _ (hnext hs)) (fun _ _ hs => hclear _ _ (hnext hs))
      have := (hfirst (.body hh hk hb)).between hpart.start_le
        (Nat.le_trans hstop (Nat.le_trans ho hstart))
      obtain ⟨hheaded⟩ := conditional?_spec hc
      have : weigh budget.weight [conditional.relabel fun item =>
          { item with relation := .alternative }] ≤ weigh budget.weight [conditional] :=
        weigh_relabel hheaded
      omega
    · obtain ⟨body', inner', hb', hw'⟩ := weigh_body (by simp) ha
      have hopens := Opens.alternative hh hi hb he (hc _ rfl) hb'
      have hle := (isPart_of_bodyRange? hb').1.start_le
      have := (hfirst hopens).between hle (hopen _ _ _ rfl hopens)
      have := (hfirst (.body hh hk hb)).between hpart.start_le (Nat.le_trans hstop ho)
      change _ ≤ budget.block + weigh budget.weight ((level levels).block inner') at hw'
      omega

/-- What is read at a heading fits in front of any offset that is clear of it. -/
theorem limit_headed (h : Headed levels (below levels) slice outline after)
    (hfit : budget.FitsBelow levels slice) (hclear : Clears levels slice offset) :
    budget.limit slice.start + weigh budget.weight [outline] ≤ budget.limit offset := by
  induction levels generalizing slice outline after with
  | zero =>
    have hown := budget.headed h
    have hbodies : weigh budget.weight h.bodies ≤ 2 * budget.block := weigh_bodies_zero h.follow
    have hle := budget.mono ((hclear 0 slice (.refl _ _)).1 _ h.read)
    rw [h.outline_eq, weigh_node, weigh_append]
    omega
  | succ levels ih =>
    have hown := budget.headed h
    have hbodies := limit_bodies h.read h.keyword h.follow hfit hclear
      fun next conditional rest hc hf hcl => (conditional?_spec hc).elim fun hh => ih hh hf hcl
    rw [h.outline_eq, weigh_node, weigh_append]
    omega

theorem limit_statement (h : statement? levels (below levels) slice = some outline)
    (hfit : budget.FitsBelow levels slice) (hstop : budget.stop slice ≤ offset)
    (hclear : Clears levels slice offset) :
    budget.limit slice.start + weigh budget.weight [outline] ≤ budget.limit offset := by
  have hle := budget.mono hstop
  cases statement?_spec h with
  | declared hd he =>
    rw [he]
    exact Nat.le_trans (budget.declared hd) hle
  | returned hd hr => exact Nat.le_trans (budget.returned hd hr) hle
  | called hc =>
    obtain ⟨heading, hh, rfl⟩ := callStatement?_spec hc
    have hhead := (hclear _ _ (.refl _ _)).1 heading hh
    exact Nat.le_trans (budget.called hh) (budget.mono hhead)
  | headed hh => exact limit_headed hh hfit hclear

/-- What is read at starts one after the other fits if each reading fits in front of the next. -/
theorem limit_filterMap {read : Slice → Option Outline} {done : Slice → Nat → Prop}
    {heads : List Slice} {upper : Nat}
    (hfit : ∀ head outline offset, read head = some outline → done head offset →
      budget.limit head.start + weigh budget.weight [outline] ≤ budget.limit offset)
    (hlast : ∀ head ∈ heads, (read head).isSome → done head upper)
    (h : heads.Pairwise fun left right =>
      (read left).isSome → (read right).isSome → done left right.start) :
    ∃ offset, (offset = upper ∨ ∃ head ∈ heads, (read head).isSome ∧ offset = head.start) ∧
      budget.limit offset + weigh budget.weight (heads.filterMap read) ≤ budget.limit upper := by
  induction heads with
  | nil => exact ⟨upper, .inl rfl, Nat.le_refl _⟩
  | cons head rest ih =>
    rw [List.pairwise_cons] at h
    obtain ⟨offset, ho, hle⟩ := ih (fun other hm => hlast other (List.mem_cons_of_mem _ hm)) h.2
    cases hr : read head with
    | none =>
      rw [List.filterMap_cons_none hr]
      refine ⟨offset, ho.imp_right ?_, hle⟩
      rintro ⟨other, hm, hs⟩
      exact ⟨other, List.mem_cons_of_mem _ hm, hs⟩
    | some outline =>
      have hsome : (read head).isSome := by rw [hr]; rfl
      have hdone : done head offset := by
        rcases ho with rfl | ⟨other, hm, hs, rfl⟩
        · exact hlast head List.mem_cons_self hsome
        · exact h.1 other hm hsome hs
      have := hfit head outline offset hr hdone
      refine ⟨head.start, .inr ⟨head, List.mem_cons_self, hsome, rfl⟩, ?_⟩
      rw [List.filterMap_cons_some hr, weigh_cons]
      omega

theorem clears_stop (levels : Nat) (head : Slice) : Clears levels head head.stop := by
  intro levels' last hc
  have hl := hc.isTail.isPart.stop_le
  refine ⟨?_, ?_⟩
  · intro heading hh
    have := heading.after.start_le_stop
    have := (Slice.heading?_spec hh).2.2.1.isPart.stop_le
    omega
  · intro next body inner _ ho
    exact Nat.le_trans ho.isPart.stop_le hl

/-- The statements of every block that is read fit in it. -/
theorem fits_of_visits (h : InSequence budget.stop text) (hv : Visits text levels block) :
    budget.Fits levels block := by
  induction levels using Nat.strongRecOn generalizing block with
  | ind levels ih =>
    have htail {head} (hm : head ∈ block.heads .topLevel) : IsTail head block :=
      Slice.isTail_of_mem_heads hm
    have hread : (level levels).block block =
        (block.heads .topLevel).filterMap (statement? levels (below levels)) := by
      rw [level_block, statements, Slice.filterMap_statementStarts]
    have hp := (h.statements levels block hv).imp_of_mem (S := fun left right =>
      (statement? levels (below levels) left).isSome →
        (statement? levels (below levels) right).isSome →
          left ∈ block.heads .topLevel ∧ budget.stop left ≤ right.start ∧
            Clears levels left right.start) fun hl _ hd hs hs' => ⟨hl, hd hs hs'⟩
    have hfit : ∀ head outline offset, statement? levels (below levels) head = some outline →
        head ∈ block.heads .topLevel ∧ budget.stop head ≤ offset ∧ Clears levels head offset →
        budget.limit head.start + weigh budget.weight [outline] ≤ budget.limit offset := by
      rintro head outline offset hs ⟨hm, hstop, hclear⟩
      refine limit_statement hs ?_ hstop hclear
      rintro levels' last next body inner hc rfl ho
      exact ih next hc.levels_le (.body hv hm (by rw [hs]; rfl) hc ho)
    have hlast : ∀ head ∈ block.heads .topLevel, (statement? levels (below levels) head).isSome →
        head ∈ block.heads .topLevel ∧ budget.stop head ≤ block.stop ∧
          Clears levels head block.stop := by
      intro head hm _
      rw [← (htail hm).stop_eq]
      exact ⟨hm, budget.stop_le (Slice.start_lt_of_mem_heads hm), clears_stop levels head⟩
    obtain ⟨offset, ho, hle⟩ := limit_filterMap hfit hlast hp
    have hs : block.start ≤ offset := by
      rcases ho with rfl | ⟨head, hm, _, rfl⟩
      · exact block.start_le_stop
      · exact (htail hm).isPart.start_le
    have := budget.mono hs
    rw [Fits, hread]
    omega

theorem limit_function {function : FunctionDefinition}
    (h : FunctionDefinition.read? slice = some function)
    (hfit : budget.Fits maxNesting function.body) (hstop : function.body.stop ≤ offset) :
    budget.limit slice.start + weigh budget.weight [ofFunction function] ≤
      budget.limit offset := by
  have hown := budget.function h
  have hblock : budget.weight ⟨.blockStatement, .body, function.opening, none, .absent⟩ ≤
      budget.block := budget.block_le (by simp)
  have hbody := budget.mono hstop
  rw [Fits] at hfit
  change budget.limit slice.start + (budget.weight ⟨.functionDeclaration, .item, function.start,
    some function.name, .words function.returnType⟩ + _ + _) ≤ _ at hown
  rw [ofFunction, weigh_node, weigh_append, weigh_node, ofBlock]
  omega

theorem limit_item (h : InSequence budget.stop text) (hm : slice ∈ text.heads .topLevel)
    (hi : item? text slice = some outline) (hstop : budget.stop slice ≤ offset)
    (hbody : ∀ function, FunctionDefinition.read? slice = some function →
      function.body.stop ≤ offset) :
    budget.limit slice.start + weigh budget.weight [outline] ≤ budget.limit offset := by
  rw [item?, Option.or_eq_some_iff, Option.map_eq_some_iff, Option.map_eq_some_iff] at hi
  rcases hi with ⟨function, hf, rfl⟩ | ⟨_, declaration, hd, rfl⟩
  · exact limit_function hf (fits_of_visits h (.function hm hf)) (hbody function hf)
  · exact Nat.le_trans (budget.declared (Option.filter_eq_some_iff.1 hd).1) (budget.mono hstop)

end Budget

theorem items_perm {text : Slice} (hf : ∀ cell ∈ text.cells, cell.IsFaithful) :
    ((FunctionDefinition.findAll text).map ofFunction ++
      (Declaration.findGlobals text (FunctionDefinition.findAll text)).map
        (ofDeclaration .item)).Perm ((text.heads .topLevel).filterMap (item? text)) := by
  have hglobals : Declaration.findGlobals text (FunctionDefinition.findAll text) =
      (text.heads .topLevel).filterMap (global? text) := by
    rw [Declaration.findGlobals, Slice.filterMap_statementStarts, List.filter_filterMap]
    rfl
  rw [hglobals, FunctionDefinition.findAll, Slice.filterMap_statementStarts, List.map_filterMap,
    List.map_filterMap]
  apply filterMap_append_perm
  intro head hm
  cases hr : FunctionDefinition.read? head with
  | none => exact .inl rfl
  | some function =>
    obtain ⟨before, hc, _⟩ := Slice.isTail_of_mem_heads hm
    have hd := Declaration.read?_of_function
      (fun cell hcell => hf cell (hc ▸ List.mem_append_right _ hcell)) (by rw [hr]; rfl)
    refine .inr ?_
    rw [global?, hd]
    rfl

/-- The tree of a text read in sequence weighs no more than the text has room for. -/
theorem Budget.weigh_ofText (budget : Budget) {text : Slice}
    (hf : ∀ cell ∈ text.cells, cell.IsFaithful) (h : InSequence budget.stop text) :
    budget.limit text.start + weigh budget.weight [ofText text] ≤
      budget.weight ⟨.program, .root, 0, none, .absent⟩ + budget.limit text.stop := by
  have hp := h.items.imp_of_mem (S := fun left right =>
    (item? text left).isSome → (item? text right).isSome → left ∈ text.heads .topLevel ∧
      budget.stop left ≤ right.start ∧ ∀ function, FunctionDefinition.read? left = some function →
        function.body.stop ≤ right.start) fun hl _ hd hs hs' => ⟨hl, hd hs hs'⟩
  have hlast : ∀ head ∈ text.heads .topLevel, (item? text head).isSome →
      head ∈ text.heads .topLevel ∧ budget.stop head ≤ text.stop ∧
        ∀ function, FunctionDefinition.read? head = some function →
          function.body.stop ≤ text.stop := by
    intro head hm _
    rw [← (Slice.isTail_of_mem_heads hm).stop_eq]
    exact ⟨hm, budget.stop_le (Slice.start_lt_of_mem_heads hm), fun function hr =>
      (FunctionDefinition.read?_spec hr).2.2.1.stop_le⟩
  have hfit : ∀ head outline offset, item? text head = some outline →
      (head ∈ text.heads .topLevel ∧ budget.stop head ≤ offset ∧
        ∀ function, FunctionDefinition.read? head = some function →
          function.body.stop ≤ offset) →
      budget.limit head.start + weigh budget.weight [outline] ≤ budget.limit offset :=
    fun head outline offset hi hd => limit_item h hd.1 hi hd.2.1 hd.2.2
  obtain ⟨offset, ho, hle⟩ := limit_filterMap hfit hlast hp
  have hstart : text.start ≤ offset := by
    rcases ho with rfl | ⟨head, hm, _, rfl⟩
    · exact text.start_le_stop
    · exact (Slice.isTail_of_mem_heads hm).isPart.start_le
  have := budget.mono hstart
  rw [ofText, weigh_node, weigh_perm (List.mergeSort_perm _ _), weigh_perm (items_perm hf)]
  omega

end Outline

end CodeOutline
