import CodeOutline.Grammar.Rule

namespace CodeOutline.Grammar

inductive Symbol (τ : Type) where
  | token (token : τ)
  | rule (name : String)
  deriving DecidableEq, Repr

structure Step (τ : Type) where
  symbol : Symbol τ
  field : Option String
  title : Option Title
  deriving DecidableEq, Repr

/-- One way to write what a rule makes. -/
structure Alternative (τ : Type) where
  steps : List (Step τ)
  level : Option String
  associativity : Option Associativity
  weight : Int
  deriving DecidableEq, Repr

namespace Alternative

variable {τ : Type}

def empty : Alternative τ :=
  ⟨[], none, none, 0⟩

def ofStep (step : Step τ) : Alternative τ :=
  ⟨[step], none, none, 0⟩

def ofSymbol (symbol : Symbol τ) : Alternative τ :=
  ofStep ⟨symbol, none, none⟩

/-- The weight that is farther from zero. -/
def heavier (first second : Int) : Int :=
  if first.natAbs < second.natAbs then second else first

/-- The second alternative after the first one. Levels are those of whole alternatives. -/
def append (first second : Alternative τ) : Alternative τ :=
  ⟨first.steps ++ second.steps, first.level <|> second.level,
    first.associativity <|> second.associativity, heavier first.weight second.weight⟩

def mapSteps (f : Step τ → Step τ) (alternative : Alternative τ) : Alternative τ :=
  { alternative with steps := alternative.steps.map f }

/-- Steps that have a field or a title keep it. -/
def withField (name : String) (alternative : Alternative τ) : Alternative τ :=
  alternative.mapSteps fun step => { step with field := step.field <|> some name }

def withTitle (title : Title) (alternative : Alternative τ) : Alternative τ :=
  alternative.mapSteps fun step => { step with title := step.title <|> some title }

end Alternative

/-- The rules made from repetitions so far. -/
abbrev Repetitions (τ : Type) := List (String × List (Alternative τ))

variable {τ : Type} [DecidableEq τ]

/-- The symbol of the rule that repeats the given alternatives. -/
def repetition (owner : String) (alternatives : List (Alternative τ)) :
    StateM (Repetitions τ) (Symbol τ) := do
  let known ← get
  match known.find? fun entry => entry.2 = alternatives with
  | some entry => return .rule entry.1
  | none =>
    let name := owner ++ "_repeat" ++ toString known.length
    set (known ++ [(name, alternatives)])
    return .rule name

mutual

def alternatives (owner : String) : Rule τ → StateM (Repetitions τ) (List (Alternative τ))
  | .blank => return [.empty]
  | .token token => return [.ofSymbol (.token token)]
  | .named name => return [.ofSymbol (.rule name)]
  | .seq parts => sequences owner parts
  | .choice parts => choices owner parts
  | .repeated part => do
    let symbol ← repetition owner (← alternatives owner part)
    return [.ofSymbol symbol]
  | .field name part => return (← alternatives owner part).map (Alternative.withField name)
  | .titled title part => return (← alternatives owner part).map (Alternative.withTitle title)
  | .level name part =>
    return (← alternatives owner part).map ({ · with level := some name })
  | .associative side part =>
    return (← alternatives owner part).map ({ · with associativity := some side })
  | .weighted weight part =>
    return (← alternatives owner part).map fun alternative =>
      { alternative with weight := Alternative.heavier alternative.weight weight }

def sequences (owner : String) : List (Rule τ) → StateM (Repetitions τ) (List (Alternative τ))
  | [] => return [.empty]
  | part :: parts => do
    let first ← alternatives owner part
    let others ← sequences owner parts
    return first.flatMap fun alternative => others.map alternative.append

def choices (owner : String) : List (Rule τ) → StateM (Repetitions τ) (List (Alternative τ))
  | [] => return []
  | part :: parts => return (← alternatives owner part) ++ (← choices owner parts)

end

/-- The ways to write one or more of what the alternatives write. -/
def repeating (name : String) (alternatives : List (Alternative τ)) : List (Alternative τ) :=
  (Alternative.ofSymbol (.rule name)).append (.ofSymbol (.rule name)) :: alternatives

/-- The alternatives of all rules, those of the repetitions last. -/
def allAlternatives (rules : List (String × Rule τ)) : List (String × List (Alternative τ)) :=
  let written : StateM (Repetitions τ) (List (String × List (Alternative τ))) :=
    rules.mapM fun (name, rule) => return (name, (← alternatives name rule).eraseDups)
  let (own, repetitions) := written.run []
  own ++ repetitions.map fun (name, alternatives) => (name, repeating name alternatives)

/-- Puts an inlined rule's alternative in the place of a step that names the rule. -/
def Step.replace (step : Step τ) (alternative : Alternative τ) : Alternative τ :=
  let titled := match step.title with
    | some title => alternative.withTitle title
    | none => alternative
  match step.field with
  | some name => titled.withField name
  | none => titled

/-- An alternative without names of inlined rules, as all the alternatives that it stands for. -/
def inlineSteps (bodies : String → Option (List (Alternative τ))) (whole : Alternative τ) :
    List (Alternative τ) :=
  let replacements (step : Step τ) : List (Alternative τ) :=
    let body := match step.symbol with
      | .token _ => none
      | .rule name => bodies name
    match body with
    | some alternatives => alternatives.map step.replace
    | none => [.ofStep step]
  whole.steps.foldl (fun done step =>
    done.flatMap fun alternative => (replacements step).map alternative.append)
    [{ whole with steps := [] }]

/-- Inlines rules in the bodies of all rules, and drops the rules themselves. Inlined rules that name
each other are at most `depth` levels deep. -/
def inlineAll (inlined : List String) :
    Nat → List (String × List (Alternative τ)) → List (String × List (Alternative τ))
  | 0, rules => rules.filter fun entry => !inlined.contains entry.1
  | depth + 1, rules =>
    let bodies (name : String) : Option (List (Alternative τ)) :=
      if inlined.contains name then rules.lookup name else none
    inlineAll inlined depth <| rules.map fun (name, alternatives) =>
      (name, (alternatives.flatMap (inlineSteps bodies)).eraseDups)

end CodeOutline.Grammar
