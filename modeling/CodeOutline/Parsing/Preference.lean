import CodeOutline.Parsing.Stack

namespace CodeOutline.Parsing

open Grammar

structure Progress where
  cost : Nat
  /-- How many seen nodes have been read since the last error. -/
  count : Nat
  weight : Int
  isInError : Bool

inductive Preference where
  /-- The first one, and the second one may be given up. -/
  | takeFirst
  | preferFirst
  | none
  | preferSecond
  | takeSecond
  deriving DecidableEq, Repr

/-- The difference in cost at which a version is given up. -/
def greatestDifference : Nat := 1800

namespace Progress

/-- Whether the second cost is too high. What has been read since makes the difference count. -/
def isTooCostly (first : Progress) (second : Nat) : Bool :=
  greatestDifference < (second - first.cost) * (1 + first.count)

def prefer (first second : Progress) : Preference :=
  if !first.isInError && second.isInError then
    if first.cost < second.cost then .takeFirst else .preferFirst
  else if first.isInError && !second.isInError then
    if second.cost < first.cost then .takeSecond else .preferSecond
  else if first.cost < second.cost then
    if first.isTooCostly second.cost then .takeFirst else .preferFirst
  else if second.cost < first.cost then
    if second.isTooCostly first.cost then .takeSecond else .preferSecond
  else if second.weight < first.weight then .preferFirst
  else if first.weight < second.weight then .preferSecond
  else .none

end Progress

namespace Run

variable (run : Run)

/-- The cost of what a version has read. A break costs something until it is an error. -/
def costOf (index : Nat) : Nat :=
  let head := run.head index
  let isBroken := head.state = lostState && (head.links.head?.any fun link => link.phrase.isNone)
  head.cost + if (run.version index).isPaused || isBroken then Cost.recovery else 0

def countSinceError (index : Nat) : Nat :=
  (run.head index).count - (run.version index).countAtError

def progress (index : Nat) : Progress :=
  let isPaused := (run.version index).isPaused
  { cost := run.costOf index + if isPaused then Cost.skippedPart else 0
    count := run.countSinceError index
    weight := (run.head index).weight
    isInError := isPaused || (run.head index).state = lostState }

/-- Whether a version with the given cost would be worse than another one, or than the tree that is
there already. -/
def isOutdone (index cost : Nat) : Bool :=
  let own : Progress := ⟨cost, run.countSinceError index, (run.head index).weight, false⟩
  (run.finished.any fun phrase => phrase.cost ≤ cost) ||
    (List.range run.versions.length).any fun other =>
      other ≠ index && (run.version other).isActive &&
        (run.head index).cursor.point.byte ≤ (run.head other).cursor.point.byte &&
        match own.prefer (run.progress other) with
        | .takeSecond => true
        | .preferSecond => run.canMerge other index
        | _ => false

/-- Whether something has been read since the last error. -/
def hasAdvanced (index : Nat) : Bool :=
  let version := run.version index
  let rec follow : Nat → Nat → Bool
    | 0, _ => false
    | limit + 1, place =>
      let node := run.node place
      match node.links.head? with
      | some ⟨below, some phrase⟩ =>
        0 < phrase.length ||
          (version.countAtError < node.count && phrase.cost = 0 && follow limit below)
      | _ => false
  (run.head index).cost = 0 || follow run.nodes.size version.node

end Run

/-- The most versions that are kept from one token to the next. -/
def mostVersions : Nat := 6

variable {τ : Type} (table : Table τ)

/-- Compares a version with those before it. The comparison ends when the version is dropped. -/
def Run.settleVersion : Nat → Run → Nat → Nat → Run × Nat
  | 0, run, index, _ => (run, index)
  | limit + 1, run, index, other =>
    if index ≤ other then (run, index + 1)
    else
      match (run.progress other).prefer (run.progress index) with
      | .takeFirst => (run.dropVersion index, index)
      | .takeSecond => settleVersion limit (run.dropVersion other) (index - 1) other
      | preference =>
        if run.canMerge other index then (run.merge table other index, index)
        else if preference = .preferSecond then
          let swapped := (run.setVersion index (run.version other)).setVersion other
            (run.version index)
          settleVersion limit swapped index (other + 1)
        else settleVersion limit run index (other + 1)

/-- Drops versions that are not worth following and puts the better ones first. -/
def Run.settleVersions : Nat → Run → Nat → Run
  | 0, run, _ => run
  | limit + 1, run, index =>
    if run.versions.length ≤ index then run
    else if (run.version index).isHalted then settleVersions limit (run.dropVersion index) index
    else
      let (run, next) := run.settleVersion table (2 * run.versions.length + 1) index 0
      settleVersions limit run next

end CodeOutline.Parsing
