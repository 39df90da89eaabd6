import CodeOutline.Parsing.Recovery

namespace CodeOutline.Parsing

open Grammar

variable {τ : Type} (table : Table τ) (lexer : Lexer)

inductive Outcome where
  /-- The token has been dealt with. -/
  | done
  | reduced (version : Nat)
  | nothing

/-- Performs the actions on a token, up to one that takes it. -/
def perform (index state : Nat) (token : Phrase) : List Action → Outcome → Parse Outcome
  | [], outcome => return outcome
  | .shift true :: others, outcome => perform index state token others outcome
  | .shift false :: _, _ => do
    let target := (← table.move? state token.symbol).getD lostState
    push table index target (some token)
    return .done
  | .pass :: _, _ => do
    push table index state (some token.asExtra)
    return .done
  | .accept :: _, _ => do
    finish table index token
    return .done
  | .recover :: _, _ => do
    recover table index token
    return .done
  | .reduce production :: others, outcome => do
    match ← reduce table index production with
    | some version => perform index state token others (.reduced version)
    | none => perform index state token others outcome

/-- Deals with a token. A keyword that does not fit is taken as a name if a name fits. -/
def consume (index : Nat) : Nat → Phrase → Parse Unit
  | 0, _ => modify fun run => run.halt index
  | limit + 1, token => do
    let state := ((← get).head index).state
    let actions ← if token.symbol = table.errorSymbol && state ≠ lostState then pure []
      else table.actions state token.symbol
    match ← perform table index state token actions .nothing with
    | .done => return
    | .reduced version =>
      modify fun run => run.moveVersion version index
      consume index limit token
    | .nothing =>
      let isName := token.label.isKeyword && token.symbol ≠ table.word && state ≠ lostState
      if isName && !(← table.actions state table.word).isEmpty then
        consume index limit (token.withSymbol table.word)
      else
        modify fun run =>
          run.setVersion index { run.version index with status := .paused token }

/-- Reads the next token of a version. -/
def advance (limit index : Nat) : Parse Unit := do
  let run ← get
  let head := run.head index
  let token ← if head.state = lostState then
      pure (lexer.passUnknown table.errorSymbol (head.cursor.rest.length + 2) none head.cursor)
    else do
      let expected := (← stateAt head.state).expected
      pure (lexer.next table.errorSymbol expected (run.hasAdvanced index) head.cursor)
  consume table index limit (.ofToken head.cursor token)

/-- Advances a version until it has come farther than any before it, or with the first one as far.
-/
def advanceVersion (limit index : Nat) : Nat → Nat → Parse Nat
  | 0, farthest => return farthest
  | rounds + 1, farthest => do
    if !((← get).version index).isActive then return farthest
    advance table lexer limit index
    let place := ((← get).head index).cursor.point.byte
    if farthest < place || (0 < index && place = farthest) then return place
    advanceVersion limit index rounds farthest

def advanceVersions (limit : Nat) : Nat → Nat → Nat → Parse Nat
  | 0, _, farthest => return farthest
  | rounds + 1, index, farthest => do
    if (← get).versions.length ≤ index then return farthest
    let farthest ← advanceVersion table lexer limit index limit farthest
    advanceVersions limit rounds (index + 1) farthest

/-- The least cost of the versions that are not in an error. -/
def leastCost? (run : Run) : Option Nat :=
  (List.range run.versions.length).foldl (fun least index =>
    let progress := run.progress index
    if progress.isInError || (run.version index).isHalted then least
    else some (min (least.getD progress.cost) progress.cost)) none

/-- Drops what is not worth following. If all versions wait with a token that does not fit, the
first of them breaks off. The result is the least cost that a better tree may have. -/
def condense : Parse (Option Nat) := do
  let least := leastCost? (← get)
  modify fun run =>
    let run := run.settleVersions table (4 * run.versions.length + 4) 0
    { run with versions := run.versions.take mostVersions }
  let run ← get
  let cost := run.costOf 0
  let token := match run.versions.head?.map Version.status with
    | some (.paused token) => some token
    | _ => none
  let waiting := token.filter fun _ => run.finishedCount < mostVersions
  if let some token := waiting then
    set (run.setVersion 0 { run.version 0 with status := .active })
    breakOff table 0 token
  modify fun run =>
    { run with versions := run.versions.filter fun version => !version.isPaused }
  return if waiting.isSome then some cost else least

/-- Reads on until the best tree is known. -/
def readAll (limit : Nat) : Nat → Nat → Parse Unit
  | 0, _ => return
  | rounds + 1, farthest => do
    if (← get).versions.isEmpty then return
    let farthest ← advanceVersions table lexer limit (8 * mostReduced) 0 farthest
    let least ← condense table
    let isFinished := (← get).finished.any fun phrase => least.all fun cost => phrase.cost < cost
    if isFinished then return
    readAll limit rounds farthest

/-- The best reading of a text as a whole. -/
def parse (cursor : Cursor) : Option Phrase :=
  let limit := 16 * cursor.rest.length + 256
  let ((_, run), _) := ((readAll table lexer limit limit 0).run (.start cursor)).run table.automaton
  run.finished

end CodeOutline.Parsing
