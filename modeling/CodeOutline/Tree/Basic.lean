namespace CodeOutline

inductive Tree (α : Type) where
  | node (label : α) (children : List (Tree α))
  deriving Repr

instance {α : Type} [Inhabited α] : Inhabited (Tree α) := ⟨.node default []⟩

namespace Tree

variable {α β : Type}

def label : Tree α → α
  | node label _ => label

def children : Tree α → List (Tree α)
  | node _ children => children

mutual

def map (f : α → β) : Tree α → Tree β
  | node label children => node (f label) (mapAll f children)

def mapAll (f : α → β) : List (Tree α) → List (Tree β)
  | [] => []
  | tree :: others => tree.map f :: mapAll f others

end

mutual

/-- The nodes with their depths, each before its descendants and children from left to right. -/
def rows (depth : Nat) : Tree α → List (Nat × α)
  | node label children => (depth, label) :: rowsAll (depth + 1) children

def rowsAll (depth : Nat) : List (Tree α) → List (Nat × α)
  | [] => []
  | tree :: others => tree.rows depth ++ rowsAll depth others

end

mutual

/-- The subtrees in pre-order, the tree itself first. -/
def subtrees : Tree α → List (Tree α)
  | node label children => node label children :: subtreesAll children

def subtreesAll : List (Tree α) → List (Tree α)
  | [] => []
  | tree :: others => tree.subtrees ++ subtreesAll others

end

/-- The labels in pre-order. -/
def walk (tree : Tree α) : List α :=
  tree.subtrees.map label

def size (tree : Tree α) : Nat :=
  tree.subtrees.length

def findAll (test : α → Bool) (tree : Tree α) : List (Tree α) :=
  tree.subtrees.filter fun subtree => test subtree.label

/-- The first child whose label passes the test. -/
def child? (test : α → Bool) (tree : Tree α) : Option (Tree α) :=
  tree.children.find? fun child => test child.label

def relabel (f : α → α) : Tree α → Tree α
  | node label children => node (f label) children

def sizeAll : List (Tree α) → Nat
  | [] => 0
  | tree :: others => tree.size + sizeAll others

theorem subtreesAll_length (trees : List (Tree α)) :
    (subtreesAll trees).length = sizeAll trees := by
  induction trees with
  | nil => rfl
  | cons tree others ih =>
    rw [subtreesAll, List.length_append, ih]
    rfl

theorem size_node (label : α) (children : List (Tree α)) :
    (node label children).size = sizeAll children + 1 := by
  rw [size, subtrees, List.length_cons, subtreesAll_length]

theorem size_eq (tree : Tree α) : tree.size = sizeAll tree.children + 1 := by
  cases tree
  exact size_node ..

theorem sizeAll_append (left right : List (Tree α)) :
    sizeAll (left ++ right) = sizeAll left + sizeAll right := by
  induction left with
  | nil => exact (Nat.zero_add _).symm
  | cons tree _ ih => rw [List.cons_append, sizeAll, sizeAll, ih, Nat.add_assoc]

theorem sizeAll_cons (tree : Tree α) (others : List (Tree α)) :
    sizeAll (tree :: others) = tree.size + sizeAll others :=
  rfl

theorem sizeAll_le_of_sublist {part whole : List (Tree α)} (h : part.Sublist whole) :
    sizeAll part ≤ sizeAll whole := by
  induction h with
  | slnil => exact Nat.le_refl _
  | cons tree _ ih => rw [sizeAll_cons]; omega
  | cons_cons tree _ ih => rw [sizeAll_cons, sizeAll_cons]; omega

/-- A node that stands in a row, with the place of its parent in the row and the children that are
attached to it so far, from the last one on. -/
structure Laid (α : Type) where
  label : α
  parent : Option Nat
  children : Array (Tree α)

/-- Takes away the last node of a row, which has all its children by then, and attaches it to its
parent, until that is done with a node without a parent. -/
def assemble (nodes : Array (Laid α)) : Option (Tree α) :=
  if h : 0 < nodes.size then
    let last := nodes.back h
    let tree := node last.label last.children.toList.reverse
    match last.parent with
    | none => some tree
    | some parent =>
      assemble (nodes.pop.modify parent fun held =>
        { held with children := held.children.push tree })
  else none
termination_by nodes.size
decreasing_by
  rw [Array.size_modify, Array.size_pop]
  omega

end Tree

end CodeOutline
