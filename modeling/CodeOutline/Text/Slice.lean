import CodeOutline.Text.Cell

namespace CodeOutline

structure Slice where
  start : Nat
  cells : List Cell
  deriving DecidableEq, Repr

namespace Slice

def ofString (text : String) : Slice :=
  ⟨0, Cell.layout text.toList⟩

def stop (slice : Slice) : Nat :=
  slice.start + slice.cells.length

def isEmpty (slice : Slice) : Bool :=
  slice.cells.isEmpty

def text (slice : Slice) : String :=
  Cell.text slice.cells

def drop (count : Nat) (slice : Slice) : Slice :=
  ⟨slice.start + count, slice.cells.drop count⟩

def take (count : Nat) (slice : Slice) : Slice :=
  ⟨slice.start, slice.cells.take count⟩

/-- The part from an offset of the whole text on. -/
def fromOffset (offset : Nat) (slice : Slice) : Slice :=
  ⟨offset, slice.cells.drop (offset - slice.start)⟩

/-- The part before an offset of the whole text. -/
def toOffset (offset : Nat) (slice : Slice) : Slice :=
  slice.take (offset - slice.start)

/-- The part between two offsets, if they are in order, in bounds and not inside a character. -/
def between? (start stop : Nat) (slice : Slice) : Option Slice :=
  if slice.start ≤ start ∧ start ≤ stop ∧ stop ≤ slice.stop ∧
      Cell.isBoundary slice.cells (start - slice.start) ∧
      Cell.isBoundary slice.cells (stop - slice.start) then
    some ((slice.toOffset stop).fromOffset start)
  else none

/-- How many cells from the start on satisfy the test. -/
def run (test : Cell → Bool) (slice : Slice) : Nat :=
  (slice.cells.takeWhile test).length

def startsWith (c : Char) (slice : Slice) : Bool :=
  slice.cells.head?.any (·.isAscii c)

def skipBlank (slice : Slice) : Slice :=
  slice.drop (slice.run Cell.isBlank)

def skipSpace (slice : Slice) : Slice :=
  slice.drop (slice.run (Cell.within CharClass.isSpace))

/-- The slice without the blanks at its two ends; a blank slice shrinks to its end. -/
def trim (slice : Slice) : Slice :=
  let rest := slice.skipBlank
  ⟨rest.start, (rest.cells.reverse.dropWhile Cell.isBlank).reverse⟩

end Slice

end CodeOutline
