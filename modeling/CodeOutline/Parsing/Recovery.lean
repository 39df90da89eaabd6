import CodeOutline.Parsing.Reduction

namespace CodeOutline.Parsing

open Grammar

variable {τ : Type} (table : Table τ)

/-- How far back states are remembered at an error. -/
def greatestDepth : Nat := 16

/-- The states on the ways back from a place, each depth before greater ones. -/
def checkpoints (nodes : Array StackNode) :
    Nat → List (Nat × Nat) → List Checkpoint → List Checkpoint
  | 0, _, known => known
  | _, [], known => known
  | limit + 1, place :: places, known =>
    let near := (place :: places).filter fun place => place.2 ≤ greatestDepth
    let all := (place :: places).foldl (fun known (index, depth) =>
      let node := nodes.getD index default
      let isKnown := known.any fun checkpoint =>
        checkpoint.depth = depth && checkpoint.state = node.state
      if greatestDepth < depth || isKnown then known
      else known ++ [⟨node.cursor.point, depth, node.state⟩]) known
    let ways := near.map fun (index, depth) =>
      (nodes.getD index default).links.map fun link =>
        (link.node, if link.phrase.any Phrase.isExtra then depth else depth + 1)
    let first := ways.filterMap List.head?
    checkpoints nodes limit (first ++ (ways.flatMap List.tail).take (mostPaths - first.length)) all

/-- The parts of the error that a place on the stack ends with, and the place before it. -/
def lastError? (node : StackNode) : Option (Nat × List Phrase) :=
  node.links.findSome? fun link =>
    match link.phrase with
    | some phrase =>
      if phrase.symbol = table.errorSymbol then some (link.node, phrase.children) else none
    | none => none

/-- Makes an error of what has been read since the given state, the given number of phrases ago. -/
def returnTo (index depth state : Nat) : Parse Bool := do
  let run ← get
  let original := run.version index
  let places := (run.back index depth).filter fun entry => (run.node entry.1).state = state
  places.forM fun (place, ways) => do
    let run ← get
    let (place, before) := (lastError? table (run.node place)).getD (place, [])
    let (parts, extras) := Phrase.splitExtras (before ++ ways.headD [])
    let count := run.versions.length
    let version : Version := ⟨place, .active, original.countAtError, []⟩
    set { run with versions := run.versions ++ [version] }
    unless parts.isEmpty do
      let cursor := (run.node place).cursor
      push table count state
        (some (Phrase.asExtra (table.phrase table.errorSymbol none cursor parts)))
    extras.forM fun extra => push table count state (some extra)
  return !places.isEmpty

/-- Looks among the states before the error for one in which the token may come. -/
def returnToAny (index : Nat) (token : Phrase) (versionCount : Nat) :
    List Checkpoint → Parse Bool
  | [] => return false
  | checkpoint :: others => do
    let run ← get
    let place := (run.head index).cursor.point
    let isRedundant := checkpoint.state = lostState || checkpoint.place.byte = place.byte ||
      (List.range versionCount).any fun other =>
        (run.head other).state = checkpoint.state && (run.head other).cursor.point.byte = place.byte
    if isRedundant then return ← returnToAny index token versionCount others
    let cost := run.costOf index + Cost.skippedPart * checkpoint.depth +
      passingCost checkpoint.place place
    if run.isOutdone index cost then return false
    if !(← table.actions checkpoint.state token.symbol).isEmpty then
      let depth := checkpoint.depth + if 0 < run.countSinceError index then 1 else 0
      if ← returnTo table index depth checkpoint.state then return true
    returnToAny index token versionCount others

/-- Ends the reading of the text that a version has come to the end of. -/
def finish (index : Nat) (token : Phrase) : Parse Unit := do
  push table index startState (some token)
  let run ← get
  (run.allBack index).forM fun phrases => do
    let rest := phrases.reverse.dropWhile Phrase.isExtra
    let after := phrases.drop rest.length
    if let root :: before := rest then
      let place := (run.head index).cursor
      let whole := table.phrase root.symbol root.label.production place
        (before.reverse ++ root.children ++ after)
      modify fun run =>
        let isBetter := match run.finished with
          | some finished => finished.isImprovedBy whole
          | none => true
        { run with
          finished := if isBetter then some whole else run.finished
          finishedCount := run.finishedCount + 1 }
  modify fun run => run.halt index

/-- Passes over a token, as part of the error that the version ends with. -/
def passOver (index : Nat) (token : Phrase) : Parse Unit := do
  let token := if table.isExtra token.symbol then token.asExtra else token
  let run ← get
  let place := (run.head index).cursor
  let skipped := table.phrase table.skippedSymbol none place [token]
  if run.countSinceError index = 0 then push table index lostState (some skipped)
  else
    match run.back index 1 with
    | [] => push table index lostState (some skipped)
    | (below, ways) :: _ =>
      let whole := table.phrase table.skippedSymbol none place (ways.headD [] ++ [skipped])
      let original := run.version index
      set (run.setVersion index { original with node := below })
      push table index lostState (some whole)

/-- What a version that is lost does with the next token. -/
def recover (index : Nat) (token : Phrase) : Parse Unit := do
  let run ← get
  let versionCount := run.versions.length
  let mayReturn := token.symbol ≠ table.errorSymbol
  let returned ← if mayReturn then
      returnToAny table index token versionCount (run.version index).checkpoints
    else pure false
  let run ← get
  if returned && mostVersions < run.versions.length then set (run.halt index)
  else if token.symbol = 0 then
    let place := (run.head index).cursor
    push table index startState (some (table.phrase table.errorSymbol none place []))
    finish table index token
  else
    let cost := run.costOf index + Cost.skippedPart +
      passingCost token.label.origin token.stop.point
    if run.isOutdone index cost then set (run.halt index)
    else passOver table index token

/-- Tries to go on as if a token were there that is missing. -/
def supply (index : Nat) (token : Phrase) : List Nat → Parse Bool
  | [] => return false
  | missing :: others => do
    let state := ((← get).head index).state
    let target ← table.after? state missing
    match target.filter (· ≠ state) with
    | none => supply index token others
    | some target =>
      let actions ← table.actions target token.symbol
      let isReducible := actions.any fun
        | .reduce _ => true
        | _ => false
      if !isReducible then return ← supply index token others
      let run ← get
      let count := run.versions.length
      set { run with versions := run.versions ++ [{ run.version index with checkpoints := [] }] }
      push table count target (some (Phrase.missing missing (run.head index).cursor))
      if ← reduceAll table [token.symbol] false count 256 (count + 1) 0 count false then return true
      supply index token others

/-- Breaks off the reading of a version at a token that does not fit. -/
def breakOff (index : Nat) (token : Phrase) : Parse Unit := do
  let before := (← get).versions.length
  let tokens := List.range' 1 (table.tokens.size - 1)
  let _ ← reduceAll table tokens true index 256 before 0 index false
  let after := (← get).versions.length
  let versions := index :: List.range' before (after - before)
  let _ ← versions.foldlM (fun supplied version => do
    let supplied ← if supplied || token.symbol = table.errorSymbol then pure supplied
      else supply table version token tokens
    push table version lostState none
    return supplied) false
  modify fun run => (List.range (after - before)).foldl (fun run _ =>
    if run.canMerge index before then run.merge table index before else run) run
  modify fun run =>
    let version := run.version index
    let states := checkpoints run.nodes (run.nodes.size + 1) [(version.node, 0)] []
    run.setVersion index { version with checkpoints := states }
  recover table index token

end CodeOutline.Parsing
