import CodeOutline.Proofs.Fault
import CodeOutline.Proofs.Outline.Opening

namespace CodeOutline

/-- What is recognised, or else the depth of a call that is too deep. -/
abbrev Capped := Except Nat

namespace Capped

open Outline (leaf ofDeclaration return? callStatement?)

/-- What a call at the given depth gives. -/
def call {α : Type} (depth : Nat) (result : Capped α) : Capped α :=
  if depth ≤ maxNesting then result else .error depth

/-- What follows the statement that a slice begins with. -/
def afterStatement? (depth : Nat) (slice : Slice) : Capped (Option Slice) :=
  call depth <|
    if slice.startsWith '{' then
      match slice.block? with
      | some (_, after) => .ok (some after)
      | none => .ok (some (slice.fromOffset slice.stop))
    else if depth < maxNesting then
      match slice.heading? with
      | none => .ok slice.pastSemicolon?
      | some heading =>
        let keyword := heading.name.text
        if keyword = "if" ∨ keyword = "for" ∨ keyword = "while" then
          match heading.after.next? with
          | none => .ok none
          | some body => do
            match ← afterStatement? (depth + 1) body with
            | none => return none
            | some after =>
              if keyword = "if" then
                match (after.next?.bind (Slice.after? "else")).bind Slice.next? with
                | some other => afterStatement? (depth + 1) other
                | none => return some after
              else return some after
        else .ok slice.pastSemicolon?
    else .ok slice.pastSemicolon?
termination_by maxNesting - depth

section

variable (depth : Nat) (inside : Slice → Capped (List Outline))

/-- A body, given how the statements in it are read. -/
def body? (relation : Relation) (slice : Slice) : Capped (Option (Outline × Slice)) :=
  call depth <|
    match slice.next? with
    | none => .ok none
    | some body => do
      let extent ←
        if body.startsWith '{' then
          .ok (some (body.block?.getD (body.drop 1, body.fromOffset body.stop)))
        else
          (afterStatement? depth body).map
            (Option.map fun after => (body.toOffset after.start, after))
      match extent with
      | none => return none
      | some (inner, after) =>
        return some (.node ⟨.blockStatement, relation, body.start, none, .absent⟩ (← inside inner),
          after)

def forLoop? (slice : Slice) : Capped (Option (Outline × Slice)) :=
  call depth <|
    match slice.heading? with
    | none => .ok none
    | some heading =>
      if heading.name.text = "for" then do
        let clauses := heading.inner.split 0x3B
        let clause (index : Nat) : Slice := clauses[index]?.getD ⟨heading.inner.stop, []⟩
        let item : Item := ⟨.forStatement, .statement, slice.start, none, .absent⟩
        let header := [leaf .initialization .init (clause 0), leaf .test .test (clause 1),
          leaf .update .update (clause 2)]
        match ← body? depth inside .body heading.after with
        | some (body, after) => return some (.node item (header ++ [body]), after)
        | none => return some (.node item header, heading.after)
      else .ok none

def whileLoop? (slice : Slice) : Capped (Option (Outline × Slice)) :=
  call depth <|
    match slice.heading? with
    | none => .ok none
    | some heading =>
      if heading.name.text = "while" ∧ !heading.after.skipBlank.startsWith ';' then do
        let item : Item := ⟨.whileStatement, .statement, slice.start, none, .absent⟩
        let test := leaf .test .test heading.inner
        match ← body? depth inside .body heading.after with
        | some (body, after) => return some (.node item [test, body], after)
        | none => return some (.node item [test], heading.after)
      else .ok none

end

mutual

/-- The statements of a body, which are those of a deeper block unless it would be too deep. -/
def inside (depth : Nat) (slice : Slice) : Capped (List Outline) :=
  if depth < maxNesting then block (depth + 1) slice else .ok []
termination_by (maxNesting + 1 - depth, 0)

/-- The conditional after an `else`, unless it would be too deep. -/
def chained (depth : Nat) (slice : Slice) : Capped (Option (Outline × Slice)) :=
  if depth < maxNesting then
    match slice.next? with
    | none => .ok none
    | some next => conditional? (depth + 1) next
  else .ok none
termination_by (maxNesting + 1 - depth, 0)

def conditional? (depth : Nat) (slice : Slice) : Capped (Option (Outline × Slice)) :=
  call depth <|
    match slice.heading? with
    | none => .ok none
    | some heading =>
      if heading.name.text = "if" then do
        let item : Item := ⟨.ifStatement, .statement, slice.start, none, .absent⟩
        let condition := leaf .binaryExpression .condition heading.inner
        match ← body? depth (inside depth) .consequent heading.after with
        | none => return some (.node item [condition], heading.after)
        | some (consequent, after) =>
          match after.next?.bind (Slice.after? "else") with
          | none => return some (.node item [condition, consequent], after)
          | some other =>
            match ← chained depth other with
            | some (conditional, rest) =>
              let alternative := conditional.relabel fun item =>
                { item with relation := .alternative }
              return some (.node item [condition, consequent, alternative], rest)
            | none =>
              match ← body? depth (inside depth) .alternative other with
              | none => return some (.node item [condition, consequent], after)
              | some (alternative, rest) =>
                return some (.node item [condition, consequent, alternative], rest)
      else .ok none
termination_by (maxNesting + 1 - depth, 1)

/-- The statement that a slice begins with. A conditional and both loops are tried in any case. -/
def statement? (depth : Nat) (slice : Slice) : Capped (Option Outline) := do
  let conditional ← conditional? depth slice
  let forLoop ← forLoop? depth (inside depth) slice
  let whileLoop ← whileLoop? depth (inside depth) slice
  return ((Declaration.read? slice).map (ofDeclaration .statement)).or <|
    (conditional.map (·.1)).or <| (forLoop.map (·.1)).or <| (whileLoop.map (·.1)).or <|
    (return? slice).or (callStatement? slice)
termination_by (maxNesting + 1 - depth, 2)

def block (depth : Nat) (slice : Slice) : Capped (List Outline) :=
  call depth do
    let found ← (slice.heads .topLevel).mapM fun head => statement? depth head
    return found.reduceOption
termination_by (maxNesting + 1 - depth, 3)

end

/-- The node of a function, whose body is read at depth zero. -/
def functionNode (function : FunctionDefinition) : Capped Outline := do
  let body ← block 0 function.body
  return .node ⟨.functionDeclaration, .item, function.start, some function.name,
      .words function.returnType⟩
    (function.parameters.map Outline.ofParameter ++
      [.node ⟨.blockStatement, .body, function.opening, none, .absent⟩ body])

/-- The tree of a text. -/
def tree (source : Source) : Capped Node := do
  let functions := FunctionDefinition.findAll source.view
  let globals := Declaration.findGlobals source.view functions
  let items := (← functions.mapM functionNode) ++ globals.map (ofDeclaration .item)
  return (Tree.node ⟨.program, .root, 0, none, .absent⟩
    (items.mergeSort fun left right => left.label.offset ≤ right.label.offset)).map source.describe

variable {depth levels : Nat}

theorem call_of_le {α : Type} {result : Capped α} (h : depth ≤ maxNesting) :
    call depth result = result :=
  if_pos h

theorem afterStatement?_eq (h : depth + levels = maxNesting) (slice : Slice) :
    afterStatement? depth slice = .ok (Outline.afterStatement? levels slice) := by
  induction levels generalizing depth slice with
  | zero =>
    rw [afterStatement?, call_of_le (by omega), if_neg (show ¬ depth < maxNesting by omega),
      Outline.afterStatement?.eq_def]
    split
    · cases slice.block? <;> rfl
    · rfl
  | succ levels ih =>
    have hdeeper := ih (show depth + 1 + levels = maxNesting by omega)
    rw [afterStatement?, call_of_le (by omega), if_pos (show depth < maxNesting by omega),
      Outline.afterStatement?.eq_def]
    split
    · cases slice.block? <;> rfl
    · cases slice.heading? with
      | none => rfl
      | some heading =>
        simp only
        split
        · cases heading.after.next? with
          | none => rfl
          | some body =>
            simp only [hdeeper, ok_bind, Option.bind_some]
            cases Outline.afterStatement? levels body with
            | none => rfl
            | some after =>
              simp only [Option.bind_some]
              split
              · cases (after.next?.bind (Slice.after? "else")).bind Slice.next? <;> rfl
              · rfl
        · rfl

section

variable {below : Option Outline.Level} {inside : Slice → Capped (List Outline)}
  (hd : depth + levels = maxNesting)
  (hi : ∀ inner, inside inner = .ok (below.elim [] (·.block inner)))
include hd hi

theorem body?_eq (relation : Relation) (slice : Slice) :
    body? depth inside relation slice = .ok (Outline.body? levels below relation slice) := by
  rw [body?, call_of_le (by omega), Outline.body?_eq, Outline.bodyRange?]
  cases slice.next? with
  | none => rfl
  | some body =>
    simp only [Option.bind_some]
    split
    · simp only [ok_bind, hi, Option.map_some, pure_eq_ok]
    · rw [afterStatement?_eq hd]
      cases Outline.afterStatement? levels body with
      | none => rfl
      | some after => simp only [Except.map, Option.map_some, ok_bind, hi, pure_eq_ok]

theorem forLoop?_eq (slice : Slice) :
    forLoop? depth inside slice = .ok (Outline.forLoop? levels below slice) := by
  rw [forLoop?, call_of_le (by omega), Outline.forLoop?]
  cases slice.heading? with
  | none => rfl
  | some heading =>
    simp only [Option.bind_some]
    split
    · rw [body?_eq hd hi]
      cases Outline.body? levels below .body heading.after <;> rfl
    · rfl

theorem whileLoop?_eq (slice : Slice) :
    whileLoop? depth inside slice = .ok (Outline.whileLoop? levels below slice) := by
  rw [whileLoop?, call_of_le (by omega), Outline.whileLoop?]
  cases slice.heading? with
  | none => rfl
  | some heading =>
    simp only [Option.bind_some]
    split
    · rw [body?_eq hd hi]
      cases Outline.body? levels below .body heading.after <;> rfl
    · rfl

end

section

variable {below : Option Outline.Level} (hd : depth + levels = maxNesting)
  (hi : ∀ inner, inside depth inner = .ok (below.elim [] (·.block inner)))
  (hc : ∀ other, chained depth other =
    .ok (below.bind fun level => other.next?.bind level.conditional?))
include hd hi hc

theorem conditional?_eq (slice : Slice) :
    conditional? depth slice = .ok (Outline.conditional? levels below slice) := by
  rw [conditional?, call_of_le (by omega), Outline.conditional?]
  cases slice.heading? with
  | none => rfl
  | some heading =>
    simp only [Option.bind_some]
    split
    · rw [body?_eq hd hi, ok_bind]
      cases Outline.body? levels below .consequent heading.after with
      | none => rfl
      | some found =>
        obtain ⟨consequent, after⟩ := found
        simp only
        cases after.next?.bind (Slice.after? "else") with
        | none => rfl
        | some other =>
          simp only [hc, ok_bind, Option.bind_some, Outline.alternative?]
          cases below.bind fun level => other.next?.bind level.conditional? with
          | some found => rfl
          | none =>
            simp only [body?_eq hd hi, ok_bind]
            cases Outline.body? levels below .alternative other <;> rfl
    · rfl

theorem statement?_eq (slice : Slice) :
    statement? depth slice = .ok (Outline.statement? levels below slice) := by
  rw [statement?, conditional?_eq hd hi hc, forLoop?_eq hd hi, whileLoop?_eq hd hi]
  rfl

theorem block_eq (slice : Slice) :
    block depth slice = .ok (Outline.statements levels below slice) := by
  rw [block, call_of_le (by omega), mapM_ok fun head _ => statement?_eq hd hi hc head, ok_bind,
    reduceOption_map, pure_eq_ok, Outline.statements, Slice.filterMap_statementStarts]

end

/-- At every depth the statements and the chains are those of the level that is left. -/
theorem deeper_eq (h : depth + levels = maxNesting) :
    (∀ inner, inside depth inner = .ok ((Outline.below levels).elim [] (·.block inner))) ∧
      ∀ other, chained depth other =
        .ok ((Outline.below levels).bind fun level => other.next?.bind level.conditional?) := by
  induction levels generalizing depth with
  | zero =>
    have hlast : ¬ depth < maxNesting := by omega
    constructor
    · intro inner
      rw [inside, if_neg hlast]
      rfl
    · intro other
      rw [chained, if_neg hlast]
      rfl
  | succ levels ih =>
    have hnext : depth + 1 + levels = maxNesting := by omega
    have hmore : depth < maxNesting := by omega
    obtain ⟨hi, hc⟩ := ih hnext
    constructor
    · intro inner
      rw [inside, if_pos hmore, block_eq hnext hi hc, ← Outline.level_block]
      rfl
    · intro other
      rw [chained, if_pos hmore]
      cases other.next? with
      | none => rfl
      | some next =>
        simp only [conditional?_eq hnext hi hc, ← Outline.level_conditional?]
        rfl

theorem functionNode_eq (function : FunctionDefinition) :
    functionNode function = .ok (Outline.ofFunction function) := by
  have hz : 0 + maxNesting = maxNesting := Nat.zero_add _
  obtain ⟨hi, hc⟩ := deeper_eq hz
  rw [functionNode, block_eq hz hi hc, ← Outline.level_block, ok_bind]
  rfl

/-- Recognition that counts its depth builds the whole tree of a text: no call is too deep. -/
theorem tree_eq (source : Source) : tree source = .ok source.tree := by
  rw [tree, mapM_ok fun function _ => functionNode_eq function, ok_bind, Source.tree,
    Outline.ofText]
  rfl

end Capped

end CodeOutline
