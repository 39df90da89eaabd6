namespace CodeOutline

structure Location where
  line : Nat
  column : Nat
  deriving DecidableEq, Repr, Inhabited

namespace Location

def origin : Location := ⟨1, 0⟩

/-- The location that follows a character standing at this one. -/
def after (location : Location) (c : Char) : Location :=
  if c = '\n' then ⟨location.line + 1, 0⟩ else ⟨location.line, location.column + 1⟩

/-- Moves over every character that ends within the given number of bytes. -/
def advance (location : Location) : Nat → List Char → Location
  | _, [] => location
  | bytes, c :: rest =>
    if c.utf8Size ≤ bytes then (location.after c).advance (bytes - c.utf8Size) rest else location

end Location

/-- The location of a byte offset. An offset inside a character counts as the start of the
character, one past the end as the end. -/
def locate (text : String) (offset : Nat) : Location :=
  Location.origin.advance offset text.toList

structure Extent where
  first : Nat
  last : Nat
  deriving DecidableEq, Repr

namespace Extent

def contains (extent : Extent) (offset : Nat) : Bool :=
  extent.first ≤ offset && offset ≤ extent.last

/-- The distance between the ends. -/
def length (extent : Extent) : Nat :=
  extent.last - extent.first

def isEmpty (extent : Extent) : Bool :=
  extent.first = extent.last

/-- The shorter of two numbered extents, the earlier one of equally long ones. -/
def shorter (held entry : Extent × Nat) : Extent × Nat :=
  if entry.1.length < held.1.length then entry else held

/-- The position of the first shortest extent that contains the offset. -/
def innermost? (extents : List Extent) (offset : Nat) : Option Nat :=
  match extents.zipIdx.filter fun entry => entry.1.contains offset with
  | [] => none
  | first :: others => some (others.foldl shorter first).2

end Extent

end CodeOutline
