import CodeOutline.Parsing.Phrase

namespace CodeOutline.Parsing

open Grammar

/-- A way back from a place on a stack: an earlier place, and the phrase in between unless reading
broke off there. -/
structure Link where
  node : Nat
  phrase : Option Phrase
  deriving Inhabited

structure StackNode where
  state : Nat
  cursor : Cursor
  links : List Link
  weight : Int
  cost : Nat
  /-- How many seen nodes have been read. -/
  count : Nat
  deriving Inhabited

/-- A state that has been passed on the way to an error. -/
structure Checkpoint where
  place : Point
  depth : Nat
  state : Nat

inductive Status where
  | active
  /-- Waiting with a token that does not fit. -/
  | paused (token : Phrase)
  | halted
  deriving Inhabited

structure Version where
  node : Nat
  status : Status
  /-- How many seen nodes had been read at the last error. -/
  countAtError : Nat
  checkpoints : List Checkpoint
  deriving Inhabited

structure Run where
  nodes : Array StackNode
  versions : List Version
  finished : Option Phrase
  finishedCount : Nat

namespace Version

def isActive (version : Version) : Bool :=
  match version.status with
  | .active => true
  | _ => false

def isPaused (version : Version) : Bool :=
  match version.status with
  | .paused _ => true
  | _ => false

def isHalted (version : Version) : Bool :=
  match version.status with
  | .halted => true
  | _ => false

end Version

namespace Run

/-- A run that has not begun. -/
def start (cursor : Cursor) : Run :=
  ⟨#[⟨startState, cursor, [], 0, 0, 0⟩], [⟨0, .active, 0, []⟩], none, 0⟩

def node (run : Run) (index : Nat) : StackNode :=
  run.nodes.getD index default

def version (run : Run) (index : Nat) : Version :=
  run.versions.getD index default

/-- The place on the stack that a version has come to. -/
def head (run : Run) (index : Nat) : StackNode :=
  run.node (run.version index).node

def setVersion (run : Run) (index : Nat) (version : Version) : Run :=
  { run with versions := run.versions.set index version }

def dropVersion (run : Run) (index : Nat) : Run :=
  { run with versions := run.versions.eraseIdx index }

def halt (run : Run) (index : Nat) : Run :=
  run.setVersion index { run.version index with status := .halted }

/-- Puts the later version in the place of the earlier one. -/
def moveVersion (run : Run) (later earlier : Nat) : Run :=
  if later = earlier then run
  else
    let source := run.version later
    let target := run.version earlier
    let version := if source.checkpoints.isEmpty then
        { source with checkpoints := target.checkpoints }
      else source
    (run.setVersion earlier version).dropVersion later

end Run

section

variable {τ : Type} (table : Table τ)

/-- What a phrase puts on top of a place on the stack. -/
def StackNode.extend (node : StackNode) (index state : Nat) : Option Phrase → StackNode
  | none => { node with state := state, links := [⟨index, none⟩] }
  | some phrase =>
    { state := state
      cursor := phrase.stop
      links := [⟨index, some phrase⟩]
      weight := node.weight + phrase.weight
      cost := node.cost + phrase.cost
      count := node.count + table.nodeCount phrase }

/-- Puts a phrase, or a break, on the stack of a version. -/
def Run.push (run : Run) (index state : Nat) (phrase : Option Phrase) : Run :=
  let version := run.version index
  let node := (run.node version.node).extend table version.node state phrase
  let version := { version with
    node := run.nodes.size
    countAtError := if phrase.isNone then node.count else version.countAtError }
  { run with
    nodes := run.nodes.push node
    versions := run.versions.set index version }

/-- Whether two breaks or two phrases need not be told apart. -/
def isLike : Option Phrase → Option Phrase → Bool
  | some first, some second => first.isLike second
  | none, none => true
  | _, _ => false

def weightOf (phrase : Option Phrase) : Int :=
  (phrase.map Phrase.weight).getD 0

/-- The most ways back that a place on a stack keeps. -/
def mostLinks : Nat := 8

/-- Adds a way back to a place on the stack. Of two like phrases between the same places the one
with the greater weight is kept. -/
def addLink : Nat → Nat → Link → Array StackNode → Array StackNode
  | 0, _, _, nodes => nodes
  | limit + 1, target, link, nodes =>
    if link.node = target then nodes
    else
      let node := nodes.getD target default
      let below := nodes.getD link.node default
      let weight := below.weight + weightOf link.phrase
      let isSame (other : Link) : Bool :=
        let otherNode := nodes.getD other.node default
        isLike other.phrase link.phrase && (other.node = link.node ||
          otherNode.state = below.state && otherNode.cursor.point.byte = below.cursor.point.byte &&
            otherNode.cost = below.cost)
      match node.links.findIdx? isSame with
      | some index =>
        let other := node.links.getD index default
        if other.node = link.node then
          if weightOf other.phrase < weightOf link.phrase then
            nodes.modify target fun node =>
              { node with links := node.links.set index link, weight := weight }
          else nodes
        else
          (below.links.foldl (fun nodes link => addLink limit other.node link nodes) nodes).modify
            target fun node => { node with weight := max node.weight weight }
      | none =>
        if node.links.length = mostLinks then nodes
        else
          let count := below.count + ((link.phrase.map table.nodeCount).getD 0)
          nodes.modify target fun node =>
            { node with
              links := node.links ++ [link]
              count := max node.count count
              weight := max node.weight weight }

/-- Whether two versions have come to the same state at the same place, at the same cost. -/
def Run.canMerge (run : Run) (first second : Nat) : Bool :=
  let a := run.head first
  let b := run.head second
  (run.version first).isActive && (run.version second).isActive && a.state = b.state &&
    a.cursor.point.byte = b.cursor.point.byte && a.cost = b.cost

/-- Makes one version of two. The second one is dropped. -/
def Run.merge (run : Run) (first second : Nat) : Run :=
  let kept := run.version first
  let links := (run.head second).links
  let ⟨nodes, versions, finished, finishedCount⟩ := run
  let nodes := links.foldl (fun nodes link => addLink table nodes.size kept.node link nodes) nodes
  let merged := nodes.getD kept.node default
  let kept := if merged.state = lostState then { kept with countAtError := merged.count }
    else kept
  ⟨nodes, (versions.set first kept).eraseIdx second, finished, finishedCount⟩

end

/-- The most ways that are followed back at once. -/
def mostPaths : Nat := 64

/-- A way back on a stack: where it has come to, what lies on it, and how much of that counts. -/
structure Path where
  node : Nat
  phrases : List Phrase
  count : Nat

def Path.along (path : Path) (link : Link) : Path :=
  match link.phrase with
  | some phrase =>
    ⟨link.node, phrase :: path.phrases, if phrase.isExtra then path.count else path.count + 1⟩
  | none => ⟨link.node, path.phrases, path.count + 1⟩

/-- Follows paths back as far as they go or until they pass the test. -/
def followPaths (nodes : Array StackNode) (isDone : Path → Bool) : Nat → List Path → List Path
  | 0, _ => []
  | _, [] => []
  | limit + 1, path :: paths =>
    let (done, others) := (path :: paths).partition isDone
    let ways := others.map fun path =>
      ((nodes.getD path.node default).links.map path.along)
    let first := ways.filterMap List.head?
    let branches := (ways.flatMap List.tail).take (mostPaths - first.length)
    done ++ followPaths nodes isDone limit (first ++ branches)

/-- Gathers paths that end at the same place, in the order in which the places are come to. -/
def gatherPaths (paths : List Path) : List (Nat × List (List Phrase)) :=
  let places := (paths.map Path.node).eraseDups
  places.map fun place =>
    (place, (paths.filter fun path => path.node = place).map Path.phrases)

/-- The places that lie the given number of phrases back, with the phrases on the ways there. -/
def Run.back (run : Run) (index count : Nat) : List (Nat × List (List Phrase)) :=
  gatherPaths <| followPaths run.nodes (fun path => path.count = count) (run.nodes.size + 1)
    [⟨(run.version index).node, [], 0⟩]

/-- All that lies on the stack of a version, for each of its ways. -/
def Run.allBack (run : Run) (index : Nat) : List (List Phrase) :=
  (followPaths run.nodes (fun path => (run.node path.node).links.isEmpty) (run.nodes.size + 1)
    [⟨(run.version index).node, [], 0⟩]).map Path.phrases

end CodeOutline.Parsing
