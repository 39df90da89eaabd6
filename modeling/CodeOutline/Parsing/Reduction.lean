import CodeOutline.Parsing.Lexer

namespace CodeOutline.Parsing

open Grammar

abbrev Parse := StateT Run (StateM Automaton)

variable {τ : Type} (table : Table τ)

def push (index state : Nat) (phrase : Option Phrase) : Parse Unit :=
  modify fun run => run.push table index state phrase

/-- Makes a version one with the first of the given versions that it can be one with. -/
def mergeWithin (others : List Nat) (index : Nat) : Parse Bool :=
  modifyGet fun run =>
    match others.find? fun other => run.canMerge other index with
    | some other => (true, run.merge table other index)
    | none => (false, run)

/-- The best phrase that the ways to a place make, and the extras after it. -/
def bestPhrase (head production : Nat) (place : Cursor) (ways : List (List Phrase)) :
    Phrase × List Phrase :=
  let make (phrases : List Phrase) : Phrase × List Phrase :=
    let (parts, extras) := Phrase.splitExtras phrases
    (table.phrase head (some production) place parts, extras)
  match ways with
  | [] => make []
  | first :: others =>
    others.foldl (fun best phrases =>
      let other := make phrases
      if best.1.isImprovedBy other.1 then other else best) (make first)

/-- The most versions that a reduction may leave. -/
def mostReduced : Nat := 10

/-- Reduces by a production. For each place that it goes back to there is a new version; the result
is the first of them. -/
def reduce (index production : Nat) : Parse (Option Nat) := do
  let body := table.production production
  let run ← get
  let original := run.version index
  let before := run.versions.length
  (run.back index body.body.size).forM fun (place, ways) => do
    let run ← get
    let count := run.versions.length
    if count ≤ mostReduced then
      let node := run.node place
      let (phrase, extras) := bestPhrase table body.head production node.cursor ways
      let phrase := phrase.relabel fun part => { part with weight := part.weight + body.weight }
      let target := (← table.move? node.state body.head).getD lostState
      let version : Version := ⟨place, .active, original.countAtError, []⟩
      modify fun run => { run with versions := run.versions ++ [version] }
      push table count target (some phrase)
      extras.forM fun extra => push table count target (some extra)
      let _ ← mergeWithin table ((List.range count).erase index) count
  return if before < (← get).versions.length then some before else none

/-- What may be done in a state when one of the given tokens comes: whether it may be taken, and
the reductions, one for each symbol and size. -/
def possibilities (state : Nat) (tokens : List Nat) : Parse (Bool × List Nat) := do
  let actions := (← tokens.mapM fun token => table.actions state token).flatten
  let takes := actions.any fun
    | .shift again => !again
    | .recover => true
    | _ => false
  let isSame (first second : Nat) : Bool :=
    let a := table.production first
    let b := table.production second
    a.head = b.head && a.body.size = b.body.size
  let reductions := actions.foldl (fun done action =>
    match action with
    | .reduce production =>
      if (table.production production).body.isEmpty || done.any (isSame production) then done
      else done ++ [production]
    | _ => done) []
  return (takes, reductions)

/-- Performs all reductions that are possible with one of the tokens, from the given version and
from those that arise. The result tells whether a version can take a token. -/
def reduceAll (tokens : List Nat) (isOpen : Bool) (first : Nat) :
    Nat → Nat → Nat → Nat → Bool → Parse Bool
  | 0, _, _, _, takes => return takes
  | limit + 1, before, round, index, takes => do
    let count := (← get).versions.length
    if count ≤ index then return takes
    if ← mergeWithin table (List.range' before (index - before)) index then
      return ← reduceAll tokens isOpen first limit before (round + 1) index takes
    let (mayTake, reductions) ← possibilities table ((← get).head index).state tokens
    let versions ← reductions.mapM (reduce table index)
    let goOn : Parse Bool :=
      let next := if index = first then count else index + 1
      reduceAll tokens isOpen first limit before (round + 1) next (takes || mayTake)
    if mayTake then return ← goOn
    match versions.getLast?.join with
    | some version =>
      if round < mostVersions then
        modify fun run => run.moveVersion version index
        return ← reduceAll tokens isOpen first limit before (round + 1) index takes
    | none => pure ()
    unless isOpen do modify fun run => run.dropVersion index
    goOn

end CodeOutline.Parsing
