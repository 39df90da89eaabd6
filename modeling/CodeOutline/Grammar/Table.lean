import CodeOutline.Grammar.Production

namespace CodeOutline.Grammar

/-- Sets of tokens as numbers. -/
abbrev TokenSet := Nat

structure SymbolInfo where
  kind : String
  /-- Whether a node of this symbol is seen in a tree. -/
  seen : Bool
  /-- Whether the symbol stands for a repetition. -/
  repeats : Bool
  deriving Repr, Inhabited

structure Production where
  head : Nat
  body : Array Nat
  steps : Array (Option String × Option Title)
  level : Option String
  associativity : Option Associativity
  weight : Int
  deriving Repr, Inhabited

/-- A production that may begin where its symbol is expected, with tokens that may follow it. -/
structure Opening where
  production : Nat
  /-- The first symbol of the production, unless it is empty. -/
  first : Option Nat
  followers : TokenSet
  /-- Whether what follows the expected symbol may follow it, too. -/
  inherits : Bool
  deriving Repr, Inhabited

structure Table (τ : Type) where
  tokens : Array τ
  symbols : Array SymbolInfo
  /-- The last production is that of a whole text. -/
  productions : Array Production
  /-- The tokens that a text of a symbol may begin with. -/
  first : Array TokenSet
  openings : Array (Array Opening)
  ranks : List (List Rank)
  extras : TokenSet
  word : Nat

namespace Table

variable {τ : Type}

def production (table : Table τ) (index : Nat) : Production :=
  table.productions.getD index default

def symbol (table : Table τ) (index : Nat) : SymbolInfo :=
  table.symbols.getD index default

def isToken (table : Table τ) (symbol : Nat) : Bool :=
  symbol < table.tokens.size

def firstOf (table : Table τ) (symbol : Nat) : TokenSet :=
  table.first.getD symbol 0

def isExtra (table : Table τ) (symbol : Nat) : Bool :=
  table.extras.testBit symbol

end Table

/-- The tokens that rules are made of, in the order of their first appearance. -/
def tokensOf {τ : Type} [DecidableEq τ] (rules : List (String × List (Alternative τ))) : List τ :=
  let steps := rules.flatMap fun entry => entry.2.flatMap Alternative.steps
  (steps.filterMap fun step =>
    match step.symbol with
    | .token token => some token
    | .rule _ => none).eraseDups

/-- One round of the computation of what texts of a symbol may begin with. -/
def growFirst (productions : Array Production) (first : Array TokenSet) : Array TokenSet :=
  productions.foldl (fun first production =>
    match production.body[0]? with
    | some symbol => first.modify production.head (· ||| first.getD symbol 0)
    | none => first) first

/-- Repeats a step until nothing changes, but not more often than the given number of times. -/
def settle {α : Type} [DecidableEq α] (step : α → α) : Nat → α → α
  | 0, value => value
  | limit + 1, value =>
    let next := step value
    if next = value then value else settle step limit next

/-- What is known of a symbol that a text may begin with: the tokens after it, and whether those
after the whole count as well. -/
structure Lead where
  symbol : Nat
  followers : TokenSet
  inherits : Bool

/-- Adds leads until none of them is new. -/
def collectLeads (tokenCount : Nat) (bodies : Nat → List (Array Nat)) (first : Array TokenSet) :
    Nat → List Lead → Array (Option (TokenSet × Bool)) → Array (Option (TokenSet × Bool))
  | 0, _, known => known
  | _, [], known => known
  | limit + 1, lead :: pending, known =>
    let before := known.getD lead.symbol none
    let (followers, inherits) := before.getD (0, false)
    let after := (followers ||| lead.followers, inherits || lead.inherits)
    if before = some after then collectLeads tokenCount bodies first limit pending known
    else
      let added := (bodies lead.symbol).filterMap fun body =>
        match body[0]?, body[1]? with
        | some symbol, none =>
          if symbol < tokenCount then none
          else some { lead with symbol := symbol }
        | some symbol, some next =>
          if symbol < tokenCount then none else some ⟨symbol, first.getD next 0, false⟩
        | none, _ => none
      collectLeads tokenCount bodies first limit (added ++ pending)
        (known.setIfInBounds lead.symbol (some after))

/-- The productions by the symbols that they make. -/
def groupByHead (symbolCount : Nat) (productions : Array Production) : Array (Array Nat) :=
  (productions.foldl (fun (index, groups) production =>
      (index + 1, groups.modify production.head (·.push index)))
    (0, Array.replicate symbolCount #[])).2

variable {τ : Type} [DecidableEq τ]

/-- The table of a grammar. `describe` tells what a token is called and whether a node of it is
seen. -/
def compile (grammar : Grammar τ) (describe : τ → String × Bool) : Table τ :=
  let rules := inlineAll grammar.inlined grammar.inlined.length (allAlternatives grammar.rules)
  let isOrdinary (token : τ) : Bool := !grammar.contextual.contains token && token ≠ grammar.word
  let tokens := ([grammar.stop, grammar.word] ++ (tokensOf rules ++ grammar.extras).filter isOrdinary
    ++ grammar.contextual).eraseDups
  let written := grammar.rules.map Prod.fst
  let symbols := tokens.map (fun token => ⟨(describe token).1, (describe token).2, false⟩) ++
    rules.map fun (name, _) =>
      ⟨name, written.contains name && !grammar.unseen.contains name && !name.startsWith "_",
        !written.contains name⟩
  let indexOf : Symbol τ → Nat
    | .token token => tokens.idxOf token
    | .rule name => tokens.length + (rules.map Prod.fst).idxOf name
  let whole : Production := ⟨symbols.length, #[tokens.length], #[(none, none)], none, none, 0⟩
  let productions := (rules.flatMap fun (name, alternatives) =>
    alternatives.map fun alternative => {
      head := indexOf (.rule name)
      body := (alternative.steps.map fun step => indexOf step.symbol).toArray
      steps := (alternative.steps.map fun step => (step.field, step.title)).toArray
      level := alternative.level
      associativity := alternative.associativity
      weight := alternative.weight : Production }).toArray
  let singletons := (List.range symbols.length).map fun index =>
    if index < tokens.length then 1 <<< index else 0
  let first := settle (growFirst productions) symbols.length singletons.toArray
  let groups := groupByHead symbols.length productions
  let bodies (symbol : Nat) : List (Array Nat) :=
    (groups.getD symbol #[]).toList.map fun index => (productions.getD index default).body
  let openings := (List.range symbols.length).map fun symbol =>
    if symbol < tokens.length then #[]
    else
      let leads := collectLeads tokens.length bodies first (symbols.length * productions.size)
        [⟨symbol, 0, true⟩] (Array.replicate symbols.length none)
      (leads.toList.zipIdx.flatMap fun (lead, head) =>
        match lead with
        | some (followers, inherits) =>
          (groups.getD head #[]).toList.map fun index =>
            ⟨index, (productions.getD index default).body[0]?, followers, inherits⟩
        | none => []).toArray
  { tokens := tokens.toArray
    symbols := symbols.toArray
    productions := productions.push whole
    first := first
    openings := openings.toArray
    ranks := grammar.ranks
    extras := grammar.extras.foldl (fun set extra => set ||| 1 <<< tokens.idxOf extra) 0
    word := tokens.idxOf grammar.word }

end CodeOutline.Grammar
