import CodeOutline.Grammar.Action
import Std.Data.HashMap

namespace CodeOutline.Grammar

structure State where
  kernel : Kernel
  /-- The items of which everything has been read. -/
  finished : List Item
  /-- The tokens that may be taken. -/
  shiftable : TokenSet
  /-- The tokens that may come. -/
  expected : TokenSet
  deriving Inhabited

structure Automaton where
  states : Array State
  index : Std.HashMap Kernel Nat
  /-- Where symbols lead, by `pairKey`. -/
  moves : Std.HashMap Nat Nat
  actions : Std.HashMap Nat (List Action)

/-- The state of a parser that does not know where it is. -/
def lostState : Nat := 0

def startState : Nat := 1

/-- Whether and where a symbol leads is kept under one number for both. -/
def pairKey (state symbol : Nat) : Nat :=
  state * 1024 + symbol

def stateAt (index : Nat) : StateM Automaton State :=
  return (← get).states.getD index default

namespace Table

variable {τ : Type} (table : Table τ)

def stateOf (kernel : Kernel) : State :=
  let shiftable := kernel.foldl (fun set item =>
    match table.nextSymbol? item with
    | some symbol => set ||| table.firstOf symbol
    | none => set) 0
  let finished := table.finishedItems kernel
  let expected := finished.foldl (fun set item => set ||| item.followers) shiftable
  ⟨kernel, finished, shiftable, expected ||| table.extras⟩

/-- The automaton with nothing but the state at the start of a text. -/
def automaton : Automaton :=
  let kernel := [table.startItem]
  ⟨#[default, table.stateOf kernel], (∅ : Std.HashMap Kernel Nat).insert kernel startState, ∅, ∅⟩

/-- The state with the given kernel. -/
def visit (kernel : Kernel) : StateM Automaton Nat := do
  match (← get).index[kernel]? with
  | some state => return state
  | none =>
    modifyGet fun automaton =>
      (automaton.states.size, { automaton with
        states := automaton.states.push (table.stateOf kernel)
        index := automaton.index.insert kernel automaton.states.size })

/-- Where a symbol leads. -/
def move? (from_ symbol : Nat) : StateM Automaton (Option Nat) := do
  match (← get).moves[pairKey from_ symbol]? with
  | some target => return some target
  | none =>
    let kernel := table.successor (← stateAt from_).kernel symbol
    if kernel.isEmpty then return none
    let target ← table.visit kernel
    modify fun automaton =>
      { automaton with moves := automaton.moves.insert (pairKey from_ symbol) target }
    return some target

def actions (from_ token : Nat) : StateM Automaton (List Action) := do
  if from_ = lostState then return [.recover]
  match (← get).actions[pairKey from_ token]? with
  | some actions => return actions
  | none =>
    let state ← stateAt from_
    let finished := state.finished.filter fun item => item.followers.testBit token
    let resolved := table.resolve state.kernel finished (state.shiftable.testBit token) token
    let actions := if resolved.isEmpty && table.isExtra token then [.pass] else resolved
    modify fun automaton =>
      { automaton with actions := automaton.actions.insert (pairKey from_ token) actions }
    return actions

/-- The state in which a token leaves the parser, if the token may be taken. -/
def after? (from_ symbol : Nat) : StateM Automaton (Option Nat) := do
  if !table.isToken symbol then table.move? from_ symbol
  else if from_ = lostState then return if table.isExtra symbol then some from_ else none
  else
    match (← table.actions from_ symbol).getLast? with
    | some (.shift _) => table.move? from_ symbol
    | some .pass => return some from_
    | _ => return none

end Table

end CodeOutline.Grammar
