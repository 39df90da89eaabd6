import CodeOutline.Grammar.Automaton
import CodeOutline.Text.Cursor
import CodeOutline.Tree.Basic

namespace CodeOutline.Parsing

open Grammar

structure Part where
  symbol : Nat
  /-- Where the gap before the part begins. -/
  origin : Point
  start : Point
  stop : Cursor
  production : Option Nat
  /-- Whether the part may stand anywhere. -/
  isExtra : Bool
  /-- Whether the part is understood, but not in the text. -/
  isMissing : Bool
  /-- Whether the part is a keyword that could be a name as well. -/
  isKeyword : Bool
  weight : Int
  errorCost : Nat
  /-- How many seen nodes there are below the part, and how many right below it. -/
  seenBelow : Nat
  seenParts : Nat
  deriving Inhabited

abbrev Phrase := Tree Part

/-- A token that the lexer has found. -/
structure Token where
  symbol : Nat
  start : Cursor
  stop : Cursor
  isKeyword : Bool

namespace Cost

def recovery : Nat := 500
def missing : Nat := 110
def skippedPart : Nat := 100
def skippedByte : Nat := 1
def skippedRow : Nat := 30

end Cost

/-- The cost of passing over the text between two points. -/
def passingCost (start stop : Point) : Nat :=
  Cost.skippedByte * (stop.byte - start.byte) + Cost.skippedRow * (stop.row - start.row)

namespace Phrase

def symbol (phrase : Phrase) : Nat :=
  phrase.label.symbol

def stop (phrase : Phrase) : Cursor :=
  phrase.label.stop

def isExtra (phrase : Phrase) : Bool :=
  phrase.label.isExtra

def weight (phrase : Phrase) : Int :=
  phrase.label.weight

def cost (phrase : Phrase) : Nat :=
  if phrase.label.isMissing then Cost.missing + Cost.recovery else phrase.label.errorCost

/-- The bytes of a phrase and of the gap before it. -/
def length (phrase : Phrase) : Nat :=
  phrase.stop.point.byte - phrase.label.origin.byte

def asExtra (phrase : Phrase) : Phrase :=
  phrase.relabel ({ · with isExtra := true })

def withSymbol (symbol : Nat) (phrase : Phrase) : Phrase :=
  phrase.relabel ({ · with symbol := symbol })

/-- A token as a phrase. The end of the text may stand anywhere. -/
def ofToken (origin : Cursor) (token : Token) : Phrase :=
  .node {
    symbol := token.symbol
    origin := origin.point
    start := token.start.point
    stop := token.stop
    production := none
    isExtra := token.symbol = 0
    isMissing := false
    isKeyword := token.isKeyword
    weight := 0
    errorCost := 0
    seenBelow := 0
    seenParts := 0 } []

/-- A token that is not in the text. -/
def missing (symbol : Nat) (place : Cursor) : Phrase :=
  (ofToken place ⟨symbol, place, place, false⟩).relabel ({ · with isMissing := true })

mutual

/-- An order of phrases that decides when nothing else does. -/
def order : Phrase → Phrase → Ordering
  | .node first firstParts, .node second secondParts =>
    (compare first.symbol second.symbol).then <|
      (compare firstParts.length secondParts.length).then (orderAll firstParts secondParts)

def orderAll : List Phrase → List Phrase → Ordering
  | first :: firsts, second :: seconds => (order first second).then (orderAll firsts seconds)
  | _, _ => .eq

end

/-- Whether the second of two readings of the same text is the better one. -/
def isImprovedBy (first second : Phrase) : Bool :=
  if second.cost ≠ first.cost then second.cost < first.cost
  else if second.weight ≠ first.weight then first.weight < second.weight
  else 0 < first.cost || order first second = .gt

/-- The bytes of the gap before a phrase. -/
def gap (phrase : Phrase) : Nat :=
  phrase.label.start.byte - phrase.label.origin.byte

/-- Whether two phrases need not be told apart. -/
def isLike (first second : Phrase) : Bool :=
  first.symbol = second.symbol &&
    (0 < first.cost && 0 < second.cost ||
      gap first = gap second && first.length = second.length &&
      first.children.length = second.children.length && first.isExtra = second.isExtra)

/-- The phrases without the extras at their end, and these. -/
def splitExtras (phrases : List Phrase) : List Phrase × List Phrase :=
  let extras := (phrases.reverse.takeWhile isExtra).reverse
  (phrases.take (phrases.length - extras.length), extras)

end Phrase

end CodeOutline.Parsing

namespace CodeOutline.Grammar.Table

open Parsing

variable {τ : Type} (table : Table τ)

/-- The symbol of what does not fit the grammar. -/
def errorSymbol : Nat :=
  table.symbols.size + 2

/-- The symbol of a part of an error that may still grow. -/
def skippedSymbol : Nat :=
  table.symbols.size + 1

def isSeen (symbol : Nat) : Bool :=
  symbol = table.errorSymbol || (table.symbol symbol).seen

def isErroneous (symbol : Nat) : Bool :=
  symbol = table.errorSymbol || symbol = table.skippedSymbol

/-- The parts of a phrase with the field and the title that a production gives them. Extras have
none. -/
def assign : List (Option String × Option Title) → List Phrase →
    List (Phrase × Option String × Option Title)
  | _, [] => []
  | [], part :: parts => (part, none, none) :: assign [] parts
  | step :: steps, part :: parts =>
    if part.isExtra then (part, none, none) :: assign (step :: steps) parts
    else (part, step) :: assign steps parts

def assigned (production : Option Nat) (parts : List Phrase) :
    List (Phrase × Option String × Option Title) :=
  assign ((production.map fun index => (table.production index).steps.toList).getD []) parts

/-- What a part adds to the cost of the error that it is passed over in. -/
def passedCost (part : Phrase) : Nat :=
  if part.isExtra || (part.symbol = table.errorSymbol && part.children.isEmpty) then 0
  else if table.isSeen part.symbol then Cost.skippedPart
  else Cost.skippedPart * part.label.seenParts

/-- A phrase made of parts. One without parts is at the given place. -/
def phrase (symbol : Nat) (production : Option Nat) (place : Cursor) (parts : List Phrase) :
    Phrase :=
  let origin := (parts.head?.map fun part => part.label.origin).getD place.point
  let start := (parts.head?.map fun part => part.label.start).getD place.point
  let stop := (parts.getLast?.map Phrase.stop).getD place
  let own := if table.isErroneous symbol then
      Cost.recovery + passingCost start stop.point +
        parts.foldl (fun cost part => cost + table.passedCost part) 0
    else 0
  let isShown (entry : Phrase × Option String × Option Title) : Bool :=
    table.isSeen entry.1.symbol || entry.2.2.isSome
  let entries := table.assigned production parts
  .node {
    symbol := symbol
    origin := origin
    start := start
    stop := stop
    production := production
    isExtra := false
    isMissing := false
    isKeyword := false
    weight := parts.foldl (fun weight part => weight + part.weight) 0
    errorCost := parts.foldl (fun cost part =>
      if part.symbol = table.skippedSymbol then cost else cost + part.cost) own
    seenBelow := entries.foldl (fun count entry =>
      count + entry.1.label.seenBelow + if isShown entry then 1 else 0) 0
    seenParts := entries.foldl (fun count entry =>
      count + if isShown entry then 1 else entry.1.label.seenParts) 0 } parts

/-- The seen nodes of a phrase. A part of an error counts as one of them. -/
def nodeCount (phrase : Phrase) : Nat :=
  phrase.label.seenBelow +
    if table.isSeen phrase.symbol || phrase.symbol = table.skippedSymbol then 1 else 0

end CodeOutline.Grammar.Table
