import CodeOutline.Delimiter.Block

/-!
Separators and terminators outside brackets. Here brackets of all kinds are counted together.
-/

namespace CodeOutline

namespace Delimiter

/-- Adds a cell to the first piece. -/
def extend (cell : Cell) : List (List Cell) → List (List Cell)
  | [] => [[cell]]
  | piece :: others => (cell :: piece) :: others

/-- The pieces between the separators outside brackets; a closer without an opener is ignored. -/
def splitCells (separator : UInt8) (depth : Nat) : List Cell → List (List Cell)
  | [] => [[]]
  | cell :: rest =>
    if isOpener cell.byte then extend cell (splitCells separator (depth + 1) rest)
    else if isCloser cell.byte then extend cell (splitCells separator (depth - 1) rest)
    else if cell.byte = separator ∧ depth = 0 then [] :: splitCells separator 0 rest
    else extend cell (splitCells separator depth rest)

/-- Puts pieces that are one separator apart at their offsets. -/
def place (start : Nat) : List (List Cell) → List Slice
  | [] => []
  | piece :: others => ⟨start, piece⟩ :: place (start + piece.length + 1) others

/-- The pieces of a stretch of a text. There are none if the stretch goes past the end of the text,
and an empty stretch is one piece. -/
def splitRange? (text : List Cell) (start stop : Nat) (separator : UInt8) : Option (List Slice) :=
  if start < stop ∧ text.length < stop then none
  else some (place start (splitCells separator 0 ((text.take stop).drop start)))

/-- The first terminator outside brackets; a closer without an opener ends the search. -/
def findFrom (terminator : UInt8) (depth position : Nat) : List Cell → Option Nat
  | [] => none
  | cell :: rest =>
    if isOpener cell.byte then findFrom terminator (depth + 1) (position + 1) rest
    else if isCloser cell.byte then
      match depth with
      | 0 => none
      | pending + 1 => findFrom terminator pending (position + 1) rest
    else if cell.byte = terminator ∧ depth = 0 then some position
    else findFrom terminator depth (position + 1) rest

end Delimiter

namespace Slice

def split (separator : UInt8) (slice : Slice) : List Slice :=
  Delimiter.place slice.start (Delimiter.splitCells separator 0 slice.cells)

def find? (terminator : UInt8) (slice : Slice) : Option Nat :=
  Delimiter.findFrom terminator 0 slice.start slice.cells

end Slice

end CodeOutline
