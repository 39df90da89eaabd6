namespace CodeOutline

inductive Associativity where
  | left
  | right
  deriving DecidableEq, Repr

/-- What a part of a node is called in place of its own kind. -/
structure Title where
  kind : String
  named : Bool
  deriving DecidableEq, Repr

inductive Rule (τ : Type) where
  | blank
  | token (token : τ)
  | named (name : String)
  | seq (parts : List (Rule τ))
  | choice (parts : List (Rule τ))
  /-- The part once or more often. -/
  | repeated (part : Rule τ)
  | field (name : String) (part : Rule τ)
  | titled (title : Title) (part : Rule τ)
  /-- The part at one of the grammar's levels of precedence. -/
  | level (name : String) (part : Rule τ)
  | associative (side : Associativity) (part : Rule τ)
  /-- The part with a weight that decides between readings of the same text. -/
  | weighted (weight : Int) (part : Rule τ)

namespace Rule

variable {τ : Type}

def optional (part : Rule τ) : Rule τ :=
  .choice [part, .blank]

/-- The part as often as it comes, or not at all. -/
def many (part : Rule τ) : Rule τ :=
  optional (.repeated part)

/-- The part once or more often, with the separator in between. -/
def separated (separator part : Rule τ) : Rule τ :=
  .seq [part, many (.seq [separator, part])]

def left (part : Rule τ) : Rule τ :=
  .associative .left part

def right (part : Rule τ) : Rule τ :=
  .associative .right part

/-- The part as a named node of the given kind. -/
def as (kind : String) (part : Rule τ) : Rule τ :=
  .titled ⟨kind, true⟩ part

end Rule

/-- An entry in an order of precedence: a level, or all that a rule makes. -/
inductive Rank where
  | level (name : String)
  | rule (name : String)
  deriving DecidableEq, Repr

structure Grammar (τ : Type) where
  /-- The rules by name. The first one is what a whole text is. -/
  rules : List (String × Rule τ)
  /-- Rules whose bodies stand wherever they are named. -/
  inlined : List String
  /-- Rules that make no node of their own. -/
  unseen : List String
  /-- Orders of precedence, each from the tightest to the loosest. -/
  ranks : List (List Rank)
  /-- What ends a text. -/
  stop : τ
  /-- The token whose spelling keywords share. -/
  word : τ
  /-- Tokens that may stand anywhere. -/
  extras : List τ
  /-- Tokens that are found by looking at what surrounds them. They are numbered last. -/
  contextual : List τ

end CodeOutline
