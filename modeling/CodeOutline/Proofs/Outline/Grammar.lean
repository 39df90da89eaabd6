import CodeOutline.Proofs.Outline.Content
import CodeOutline.Proofs.Outline.Induction

namespace CodeOutline

/-- What a node is and how it hangs off the node above it. -/
abbrev Role := NodeKind × Relation

def Item.role (item : Item) : Role :=
  (item.kind, item.relation)

def NodeLabel.role (label : NodeLabel) : Role :=
  (label.kind, label.relation)

namespace NodeKind

/-- The kinds of statements. -/
def statements : List NodeKind :=
  [.variableDeclaration, .ifStatement, .forStatement, .whileStatement, .returnStatement,
    .callExpression]

/-- Whether the children of a node of the kind can have the roles, from left to right. -/
def produces (kind : NodeKind) (roles : List Role) : Bool :=
  match kind with
  | .program => roles.all fun role =>
      role = (.functionDeclaration, .item) ∨ role = (.variableDeclaration, .item)
  | .functionDeclaration =>
      roles.getLast? = some (.blockStatement, .body) ∧
        roles.dropLast.all fun role => role = (.parameter, .param)
  | .blockStatement => roles.all fun role => role.1 ∈ statements ∧ role.2 = .statement
  | .ifStatement =>
      let condition := (.binaryExpression, .condition)
      let consequent := (.blockStatement, .consequent)
      roles ∈ [[condition], [condition, consequent],
        [condition, consequent, (.blockStatement, .alternative)],
        [condition, consequent, (.ifStatement, .alternative)]]
  | .forStatement =>
      let clauses := [(.initialization, .init), (.test, .test), (.update, .update)]
      roles ∈ [clauses, clauses ++ [(.blockStatement, .body)]]
  | .whileStatement =>
      roles ∈ [[(.test, .test)], [(.test, .test), (.blockStatement, .body)]]
  | .returnStatement => roles ∈ [[], [(.callExpression, .call)]]
  | .callExpression => roles.all fun role => role = (.argument, .argument)
  | .variableDeclaration => roles ∈ [[], [(.initializer, .initializer)]]
  | _ => roles.isEmpty

theorem produces_functionDeclaration {parameters : List Role}
    (h : ∀ role ∈ parameters, role = (.parameter, .param)) :
    functionDeclaration.produces (parameters ++ [(.blockStatement, .body)]) := by
  rw [produces, List.getLast?_concat, List.dropLast_concat]
  apply decide_eq_true
  constructor
  · rfl
  · rw [List.all_eq_true]
    exact fun role hm => decide_eq_true (h role hm)

theorem eq_returnStatement {kind : NodeKind} {roles : List Role} {role : Role}
    (h : kind.produces roles) (hm : role ∈ roles) (hr : role.2 = .call) :
    kind = .returnStatement := by
  cases kind with
  | returnStatement => rfl
  | functionDeclaration =>
    obtain ⟨hlast, hinit⟩ := of_decide_eq_true h
    obtain ⟨front, rfl⟩ := List.getLast?_eq_some_iff.1 hlast
    rw [List.dropLast_concat, List.all_eq_true] at hinit
    rcases List.mem_append.1 hm with hm | hm
    · rw [of_decide_eq_true (hinit role hm)] at hr
      cases hr
    · rw [List.mem_singleton.1 hm] at hr
      cases hr
  | program | blockStatement | callExpression =>
    have hrole := of_decide_eq_true (List.all_eq_true.1 h role hm)
    simp [hr, Prod.ext_iff] at hrole
  | ifStatement | forStatement | whileStatement | variableDeclaration =>
    have hnone {choices : List (List Role)}
        (hc : ∀ choice ∈ choices, ∀ role ∈ choice, role.2 ≠ .call) (h : roles ∈ choices) : False :=
      hc roles h role hm hr
    exact (hnone (by decide) (of_decide_eq_true h)).elim
  | _ =>
    rw [List.isEmpty_iff.1 h] at hm
    cases hm
end NodeKind

namespace Outline

/-- A wording that is shown: a quoted text of more than blanks. -/
def IsShown (wording : Wording) : Prop :=
  ∃ slice : Slice, wording = .quoted slice ∧ slice.trim.isEmpty = false

/-- A node with the children that its kind can have, and with the texts of the arguments of a
call. -/
def Produced (item : Item) (children : List Item) : Prop :=
  item.kind.produces (children.map Item.role) ∧
    (item.kind = .callExpression → ∀ child ∈ children, IsShown child.wording)

/-- A statement with the children that the kinds of its nodes can have. -/
structure IsStatement (outline : Outline) : Prop where
  kind : outline.label.kind ∈ NodeKind.statements
  relation : outline.label.relation = .statement
  produced : outline.Locally Produced

variable {levels : Nat} {slice inner after : Slice} {relation : Relation} {outline : Outline}
  {bodies leaves : List Outline} {keyword : String}

theorem produced_relabel (h : outline.Locally Produced) :
    (outline.relabel fun item => { item with relation := relation }).Locally Produced := by
  obtain ⟨item, children⟩ := outline
  rw [Tree.locally_node] at h
  rw [Tree.relabel, Tree.locally_node]
  exact h

theorem produced_leaf {kind : NodeKind} (h : kind.produces []) :
    (leaf kind relation slice).Locally Produced := by
  rw [leaf, Tree.locally_leaf]
  exact ⟨h, fun _ child hc => absurd hc List.not_mem_nil⟩

theorem produced_ofDeclaration (declaration : Declaration) :
    (ofDeclaration relation declaration).Locally Produced := by
  rw [ofDeclaration, Tree.locally_node]
  constructor
  · constructor
    · cases declaration.initializer with
      | none => rfl
      | some value => rfl
    · intro hk
      cases hk
  · intro child hc
    obtain ⟨value, _, rfl⟩ := List.mem_map.1 hc
    exact produced_leaf rfl

theorem isStatement_ofDeclaration (declaration : Declaration) :
    IsStatement (ofDeclaration .statement declaration) := by
  have hm : NodeKind.variableDeclaration ∈ NodeKind.statements := by decide
  exact ⟨hm, rfl, produced_ofDeclaration declaration⟩

theorem produced_ofCall (name inner : Slice) : (ofCall relation name inner).Locally Produced := by
  rw [ofCall, Tree.locally_node]
  constructor
  · constructor
    · simp only [NodeKind.produces, List.map_map, List.all_map, List.all_eq_true]
      intro piece _
      rfl
    · intro _ child hc
      simp only [List.map_map, List.mem_map] at hc
      obtain ⟨piece, hp, rfl⟩ := hc
      exact ⟨piece, rfl, by simpa using (List.mem_filter.1 hp).2⟩
  · intro child hc
    obtain ⟨piece, _, rfl⟩ := List.mem_map.1 hc
    exact produced_leaf rfl

theorem isStatement_return? (h : return? slice = some outline) : IsStatement outline := by
  obtain ⟨_, _, value, _, _, _, rfl⟩ := return?_spec h
  have hm : NodeKind.returnStatement ∈ NodeKind.statements := by decide
  refine ⟨hm, rfl, ?_⟩
  rw [Tree.locally_node]
  cases hc : findCall? 0 value.start value.cells with
  | none =>
    refine ⟨⟨rfl, fun hk => ?_⟩, fun child hm => absurd hm List.not_mem_nil⟩
    cases hk
  | some call =>
    obtain ⟨name, inner, rfl, _⟩ := findCall?_spec hc
    refine ⟨⟨rfl, fun hk => ?_⟩, fun child hm => ?_⟩
    · cases hk
    · rw [List.mem_singleton.1 hm]
      exact produced_ofCall name inner

theorem isStatement_callStatement? (h : callStatement? slice = some outline) :
    IsStatement outline := by
  obtain ⟨heading, _, rfl⟩ := callStatement?_spec h
  have hm : NodeKind.callExpression ∈ NodeKind.statements := by decide
  exact ⟨hm, rfl, produced_ofCall heading.name heading.inner⟩

theorem produced_block {item : Item} {children : List Outline} (hk : item.kind = .blockStatement)
    (h : ∀ child ∈ children, IsStatement child) :
    (Tree.node item children).Locally Produced := by
  rw [Tree.locally_node]
  refine ⟨⟨?_, fun hc => ?_⟩, fun child hm => (h child hm).produced⟩
  · rw [hk]
    simp only [NodeKind.produces, List.all_eq_true, List.mem_map, decide_eq_true_eq]
    rintro _ ⟨_, ⟨child, hm, rfl⟩, rfl⟩
    exact ⟨(h child hm).kind, (h child hm).relation⟩
  · rw [hk] at hc
    cases hc

theorem kind_conditional? {below : Option Level}
    (h : conditional? levels below slice = some (outline, after)) :
    outline.label.kind = .ifStatement := by
  rw [conditional?, Option.bind_eq_some_iff] at h
  obtain ⟨heading, _, h⟩ := h
  split at h
  · simp only at h
    split at h
    · cases h
      rfl
    · split at h
      · cases h
        rfl
      · cases h
        rfl
  · cases h

theorem role_body? {below : Option Level}
    (h : body? levels below relation slice = some (outline, after)) :
    outline.label.role = (.blockStatement, relation) := by
  obtain ⟨body, inner, _, rfl⟩ := body?_spec h
  rfl

theorem role_alternative? (h : alternative? levels (below levels) slice = some (outline, after)) :
    outline.label.role = (.ifStatement, .alternative) ∨
      outline.label.role = (.blockStatement, .alternative) := by
  rcases alternative?_spec h with ⟨next, conditional, _, _, _, hc, rfl⟩ | ⟨_, hb⟩
  · have hk := kind_conditional? hc
    obtain ⟨item, children⟩ := conditional
    exact .inl (congrArg (·, Relation.alternative) hk)
  · exact .inr (role_body? hb)

/-- A statement with a heading has the leaves and the bodies that go with its keyword. -/
theorem produces_headed {kind : NodeKind} (hk : kind = headedKind keyword)
    (hc : Clauses inner kind leaves)
    (hb : Bodies levels (below levels) keyword slice bodies after) :
    kind.produces ((leaves ++ bodies).map fun child => child.label.role) := by
  have hif : keyword = "if" → kind = .ifStatement := by
    rintro rfl
    exact hk
  have hfirst : bodyRelation keyword = if kind = .ifStatement then .consequent else .body := by
    rw [hk, headedKind, bodyRelation]
    split
    · rfl
    · split <;> rfl
  rw [List.map_append]
  cases hb with
  | none => cases hc <;> rfl
  | one hbody =>
    rw [List.map_singleton, role_body? hbody, hfirst]
    cases hc <;> rfl
  | two hkeyword hbody _ halternative =>
    cases hif hkeyword
    rw [List.map_cons, List.map_singleton, role_body? hbody]
    cases hc
    rcases role_alternative? halternative with ho | ho
    · rw [ho]
      rfl
    · rw [ho]
      rfl

theorem produced_of_mem_leaves {kind : NodeKind} (hc : Clauses inner kind leaves) :
    ∀ tree ∈ leaves, tree.Locally Produced := by
  intro tree hm
  obtain ⟨kind, relation, part, rfl, hclause, _⟩ := hc.leaf_of_mem tree hm
  have hnone : ∀ clause ∈ clauses, clause.1.produces [] := by decide
  exact produced_leaf (hnone _ hclause)

theorem isStatement_headed (h : Headed levels (below levels) slice outline after)
    (hb : Branches (fun _ _ => IsStatement) levels h.heading.after h.bodies after) :
    IsStatement outline := by
  have hheaded : ∀ kind ∈ [NodeKind.ifStatement, .forStatement, .whileStatement],
      kind ∈ NodeKind.statements ∧ kind ≠ .callExpression := by decide
  obtain ⟨hkind, hcall⟩ := hheaded _ h.kind
  have hlocal : (Tree.node h.item (h.leaves ++ h.bodies)).Locally Produced := by
    rw [Tree.locally_node]
    refine ⟨⟨?_, fun hk => absurd hk hcall⟩, ?_⟩
    · rw [List.map_map]
      exact produces_headed h.kind_eq h.header h.follow
    · intro child hm
      rcases List.mem_append.1 hm with hm | hm
      · exact produced_of_mem_leaves h.header child hm
      · obtain ⟨other, rest, _, hbranch⟩ := hb.exists_branch hm
        cases hbranch with
        | body hbody =>
          obtain ⟨_, hs⟩ := hbody
          apply produced_block rfl
          intro child hm
          obtain ⟨next, hl, head, hh, hchild⟩ := mem_statementsBelow.1 hm
          exact hs next hl head hh child hchild
        | chained _ _ _ hp => exact produced_relabel hp.produced
  rw [h.outline_eq]
  exact ⟨hkind, h.relation, hlocal⟩

theorem isStatement_statement? (h : statement? levels (below levels) slice = some outline) :
    IsStatement outline :=
  statement?_induct (P := fun _ _ => IsStatement)
    (fun {_ _ declaration} _ => isStatement_ofDeclaration declaration)
    isStatement_return? isStatement_callStatement? isStatement_headed h

theorem produced_ofFunction (function : FunctionDefinition) :
    (ofFunction function).Locally Produced := by
  rw [ofFunction, Tree.locally_node]
  refine ⟨⟨?_, fun hk => ?_⟩, ?_⟩
  · rw [List.map_append, List.map_append]
    apply NodeKind.produces_functionDeclaration
    intro role hm
    simp only [List.map_map, List.mem_map] at hm
    obtain ⟨parameter, _, rfl⟩ := hm
    rfl
  · cases hk
  · intro child hm
    rcases List.mem_append.1 hm with hm | hm
    · obtain ⟨parameter, _, rfl⟩ := List.mem_map.1 hm
      rw [ofParameter, Tree.locally_leaf]
      exact ⟨rfl, fun _ child hc => absurd hc List.not_mem_nil⟩
    · rw [List.mem_singleton.1 hm]
      apply produced_block rfl
      intro child hchild
      obtain ⟨head, _, hs⟩ := mem_level_block.1 hchild
      exact isStatement_statement? hs

theorem produced_ofText (text : Slice) : (ofText text).Locally Produced := by
  have hchild : ∀ child ∈ (ofText text).children, child.Locally Produced ∧
      (child.label.role = (.functionDeclaration, .item) ∨
        child.label.role = (.variableDeclaration, .item)) := by
    intro child hm
    rcases mem_children_ofText.1 hm with ⟨function, _, rfl⟩ | ⟨declaration, _, rfl⟩
    · exact ⟨produced_ofFunction function, .inl rfl⟩
    · exact ⟨produced_ofDeclaration declaration, .inr rfl⟩
  rw [ofText, Tree.locally_node]
  refine ⟨⟨?_, fun hk => ?_⟩, fun child hm => (hchild child hm).1⟩
  · simp only [NodeKind.produces, List.map_map, List.all_map, List.all_eq_true]
    exact fun child hm => decide_eq_true (hchild child hm).2
  · cases hk

end Outline

/-- Each node has children of the kinds and relations that go with its kind, in their order, and the
arguments of a call have their texts. -/
theorem produces_structuralTree (text : String) :
    (structuralTree text).label.role = (.program, .root) ∧
    ∀ node ∈ (structuralTree text).subtrees,
      node.label.kind.produces (node.children.map fun child => child.label.role) ∧
      (node.label.kind = .callExpression →
        ∀ child ∈ node.children, child.label.rawText.isSome) := by
  constructor
  · rw [structuralTree, Source.tree, Source.label_describe]
    rfl
  · intro node hm
    rw [structuralTree, Source.tree, Tree.subtrees_map, List.mem_map] at hm
    obtain ⟨outline, ho, rfl⟩ := hm
    obtain ⟨hproduces, harguments⟩ := Outline.produced_ofText _ outline ho
    rw [Source.label_describe, Source.children_describe]
    constructor
    · have hroles : (outline.children.map (Tree.map (Source.ofString text).describe)).map
          (fun child => child.label.role) = (outline.children.map Tree.label).map Item.role := by
        rw [List.map_map, List.map_map]
        apply List.map_congr_left
        intro child _
        exact congrArg NodeLabel.role (Source.label_describe (Source.ofString text) child)
      rw [hroles]
      exact hproduces
    · intro hk child hc
      obtain ⟨argument, ha, rfl⟩ := List.mem_map.1 hc
      obtain ⟨slice, hw, hshown⟩ := harguments hk _ (List.mem_map_of_mem ha)
      rw [Source.label_describe, Source.describe, hw]
      simp [Source.wording, Source.fragment?, hshown]

end CodeOutline
