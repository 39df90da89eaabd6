import CodeOutline.Delimiter.Split
import CodeOutline.Outline.Statement
import CodeOutline.Proofs.Text.Location

namespace CodeOutline

/-- What is asked of a text that the text does not have. -/
inductive Fault where
  | byte (offset : Nat)
  | stretch (start stop : Nat)
  deriving DecidableEq, Repr

abbrev Checked := Except Fault

/-- A stretch of a text by its offsets. -/
structure Span where
  start : Nat
  stop : Nat
  deriving DecidableEq, Repr

def Slice.span (slice : Slice) : Span :=
  ⟨slice.start, slice.stop⟩

namespace Checked

/-- The byte at an offset of a whole text. -/
def byteAt (text : Slice) (offset : Nat) : Checked UInt8 :=
  match text.cells[offset]? with
  | some cell => .ok cell.byte
  | none => .error (.byte offset)

/-- The stretch of a whole text between two offsets. -/
def cut (text : Slice) (span : Span) : Checked Slice :=
  match text.between? span.start span.stop with
  | some slice => .ok slice
  | none => .error (.stretch span.start span.stop)

example : cut ⟨0, Cell.layout ['a', 'é', 'b']⟩ ⟨1, 2⟩ = .error (.stretch 1 2) := rfl

/-- The first byte that is not blank at or after an offset. -/
def skipFrom (text : Slice) (offset : Nat) : Option Nat :=
  (text.fromOffset offset).next?.map Slice.start

/-- Where the first byte at or after an offset that is not blank stands, if it is the given one. -/
def expect (text : Slice) (offset : Nat) (byte : UInt8) : Checked (Option Nat) :=
  match skipFrom text offset with
  | none => .ok none
  | some found => do
    if (← byteAt text found) = byte then return some found else return none

/-- The first terminator outside brackets between two offsets. -/
def findFrom (text : Slice) (start limit : Nat) (terminator : UInt8) : Option Nat :=
  ((text.toOffset limit).fromOffset start).find? terminator

/-- Where the bracket at an offset is closed. -/
def closing? (text : Slice) (offset : Nat) : Option Nat :=
  (Delimiter.closing text.cells offset).toOption

/-- Moves over blanks, at most over the given number of bytes. -/
def skipBlanks (text : Slice) (offset : Nat) : Nat → Checked Nat
  | 0 => .ok offset
  | count + 1 => do
    if CharClass.isBlank (← byteAt text offset) then skipBlanks text (offset + 1) count
    else .ok offset

/-- Moves back over blanks. -/
def dropBlanks (text : Slice) (offset : Nat) : Nat → Checked Nat
  | 0 => .ok offset
  | count + 1 => do
    if CharClass.isBlank (← byteAt text (offset - 1)) then dropBlanks text (offset - 1) count
    else .ok offset

/-- The stretches between the separators outside brackets. `start` is where the stretch being read
begins, and `count` bytes are left up to `stop`. -/
def splitFrom (text : Slice) (separator : UInt8) (stop depth start offset : Nat) :
    Nat → Checked (List Span)
  | 0 => .ok [⟨start, stop⟩]
  | count + 1 => do
    let byte ← byteAt text offset
    if Delimiter.isOpener byte then
      splitFrom text separator stop (depth + 1) start (offset + 1) count
    else if Delimiter.isCloser byte then
      splitFrom text separator stop (depth - 1) start (offset + 1) count
    else if byte = separator ∧ depth = 0 then
      return ⟨start, offset⟩ :: (← splitFrom text separator stop 0 (offset + 1) (offset + 1) count)
    else splitFrom text separator stop depth start (offset + 1) count

def split (text : Slice) (span : Span) (separator : UInt8) : Checked (List Span) :=
  splitFrom text separator span.stop 0 span.start span.start (span.stop - span.start)

end Checked

namespace Source

/-- The text itself, from its first to its last byte. -/
def original (source : Source) : Slice :=
  ⟨0, source.cells⟩

end Source

namespace Checked

/-- The last offset up to the given one that is not inside a character. -/
def floorBoundary (cells : List Cell) : Nat → Nat
  | 0 => 0
  | offset + 1 =>
    if Cell.isBoundary cells (offset + 1) then offset + 1 else floorBoundary cells offset

/-- Where the last line of a text begins. -/
def lastLine (cells : List Cell) : Nat :=
  cells.length - (cells.reverse.takeWhile fun cell => !cell.isLineBreak).length

section

variable (source : Source)

def locate (offset : Nat) : Checked Location := do
  let before ← cut source.original ⟨0, floorBoundary source.cells (min offset source.size)⟩
  let line ← cut before ⟨lastLine before.cells, before.stop⟩
  return ⟨1 + Cell.lineBreaks before.cells, (Cell.chars line.cells).length⟩

/-- A stretch of the masked text without the blanks around it. -/
def trim (span : Span) : Checked Span := do
  let stop := min span.stop source.masked.length
  let start ← skipBlanks source.view span.start (stop - span.start)
  return ⟨start, ← dropBlanks source.view stop (stop - start)⟩

/-- What the text itself has at the place of a stretch, if that is not blank. -/
def fragment (span : Span) : Checked (Option String) := do
  let span ← trim source span
  if span.start < span.stop then return some (← cut source.original span).text
  else return none

def maskedFragment (span : Span) : Checked String := do
  return (← cut source.view (← trim source span)).text

end

end Checked

end CodeOutline
