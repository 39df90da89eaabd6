import CodeOutline.Grammar.Table

namespace CodeOutline.Grammar

structure Item where
  /-- The production and how many of its symbols have been read, as one number. Items that are read
  further have greater numbers. -/
  code : Nat
  followers : TokenSet
  deriving DecidableEq, Hashable, Repr

/-- Items of which something has been read, in the order of their numbers. What the next symbols of
these may begin with follows from them. -/
abbrev Kernel := List Item

namespace Table

variable {τ : Type} (table : Table τ)

def productionOf (item : Item) : Production :=
  table.production (item.code % table.productions.size)

def readCount (item : Item) : Nat :=
  item.code / table.productions.size

def nextSymbol? (item : Item) : Option Nat :=
  (table.productionOf item).body[table.readCount item]?

/-- The tokens that may follow the next symbol of an item. -/
def afterNext (item : Item) : TokenSet :=
  match (table.productionOf item).body[table.readCount item + 1]? with
  | some symbol => table.firstOf symbol
  | none => item.followers

/-- The item with its next symbol read. -/
def advanceItem (item : Item) : Item :=
  { item with code := item.code + table.productions.size }

/-- The item of a whole text of which nothing has been read. -/
def startItem : Item :=
  ⟨table.productions.size - 1, 1⟩

/-- The followers of a production that the next symbol of an item opens. -/
def followersOf (item : Item) (opening : Opening) : TokenSet :=
  if opening.inherits then opening.followers ||| table.afterNext item else opening.followers

/-- The items that open with a symbol where the given item expects another one. -/
def openedBy (item : Item) (expected symbol : Nat) : List Item :=
  (table.openings.getD expected #[]).toList.filterMap fun opening =>
    if opening.first = some symbol then
      some ⟨table.productions.size + opening.production, table.followersOf item opening⟩
    else none

/-- Makes one item of those with the same number. -/
def unite : List Item → Kernel
  | first :: second :: others =>
    if first.code = second.code then
      unite (⟨second.code, first.followers ||| second.followers⟩ :: others)
    else first :: unite (second :: others)
  | items => items
termination_by items => items.length

/-- The kernel that a symbol leads to. -/
def successor (kernel : Kernel) (symbol : Nat) : Kernel :=
  let items := kernel.flatMap fun item =>
    match table.nextSymbol? item with
    | none => []
    | some next =>
      let opened := table.openedBy item next symbol
      if next = symbol then table.advanceItem item :: opened else opened
  unite (items.mergeSort fun first second => first.code ≤ second.code)

/-- The items of a kernel of which everything has been read, and those of which there is nothing to
read. -/
def finishedItems (kernel : Kernel) : List Item :=
  kernel.flatMap fun item =>
    match table.nextSymbol? item with
    | none => [item]
    | some next => (table.openings.getD next #[]).toList.filterMap fun opening =>
      if opening.first.isNone then
        some ⟨opening.production, table.followersOf item opening⟩
      else none

end Table

end CodeOutline.Grammar

namespace CodeOutline.Grammar

inductive Action where
  | accept
  /-- Makes a node of what a production has read. -/
  | reduce (production : Nat)
  /-- Takes the token. `again` tells that this only postpones a step of a repetition. -/
  | shift (again : Bool)
  /-- Takes the token without leaving the state. -/
  | pass
  /-- Looks for a state in which to go on. -/
  | recover
  deriving DecidableEq, Repr

/-- What a reading is preferred by: its level and the rules that it belongs to. -/
structure Standing where
  level : Option String
  heads : List Nat

/-- Where two readings stand to each other in an order of precedence. -/
def compareIn (first second : Rank → Bool) (sawFirst sawSecond : Bool) :
    List Rank → Option Ordering
  | [] => none
  | rank :: ranks =>
    if first rank then
      if sawSecond then some .lt else compareIn first second true sawSecond ranks
    else if second rank then
      if sawFirst then some .gt else compareIn first second sawFirst true ranks
    else compareIn first second sawFirst sawSecond ranks

/-- The readings that end with the same token, and how they associate. -/
structure Endings where
  reductions : List Action
  standing : Standing
  sides : List (Option Associativity)

namespace Table

variable {τ : Type} (table : Table τ)

def ranksAs (standing : Standing) : Rank → Bool
  | .level name => standing.level = some name
  | .rule name => standing.heads.any fun head => (table.symbol head).kind = name

def compare (first second : Standing) : Ordering :=
  (table.ranks.findSome? (compareIn (table.ranksAs first) (table.ranksAs second) false false)).getD
    .eq

def standingOf (item : Item) : Standing :=
  let production := table.productionOf item
  ⟨production.level, [production.head]⟩

/-- Adds a finished item. Of items at different levels only the tightest are kept. -/
def addEnding (endings : Option Endings) (item : Item) : Option Endings :=
  let production := table.productionOf item
  let index := item.code % table.productions.size
  let action := if index + 1 = table.productions.size then .accept else .reduce index
  let own := table.standingOf item
  let alone : Endings := ⟨[action], own, [production.associativity]⟩
  match endings with
  | none => alone
  | some others =>
    match table.compare own others.standing with
    | .gt => alone
    | .lt => others
    | .eq => some ⟨others.reductions ++ [action],
        ⟨production.level, production.head :: others.standing.heads⟩,
        production.associativity :: others.sides⟩

/-- The actions on a token in the set of items with the given kernel. The token may follow the
finished items; `shifts` tells whether it may be taken. -/
def resolve (kernel finished : List Item) (shifts : Bool) (token : Nat) : List Action :=
  match finished.foldl table.addEnding none, shifts with
  | none, false => []
  | none, true => [.shift false]
  | some endings, false => endings.reductions
  | some endings, true =>
    let going := kernel.filter fun item =>
      (table.nextSymbol? item).any fun symbol => (table.firstOf symbol).testBit token
    let heads := ((going ++ finished).map fun item => (table.productionOf item).head).eraseDups
    if heads.length = 1 && heads.all fun head => (table.symbol head).repeats then
      endings.reductions ++ [.shift true]
    else
      let orders := going.map fun item => table.compare (table.standingOf item) endings.standing
      let tighter := orders.contains .gt
      let looser := orders.contains .lt
      let sides := endings.sides.eraseDups
      if tighter && !looser then [.shift false]
      else if looser && !tighter then endings.reductions
      else if tighter then endings.reductions ++ [.shift false]
      else if sides = [some .left] then endings.reductions
      else if sides = [some .right] then [.shift false]
      else endings.reductions ++ [.shift false]

end Table

end CodeOutline.Grammar
