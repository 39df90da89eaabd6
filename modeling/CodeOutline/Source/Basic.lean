import CodeOutline.Source.Mask
import CodeOutline.Text.Location
import CodeOutline.Text.Slice

namespace CodeOutline

def maskText (text : String) : String :=
  String.ofList (Mask.chars text.toList)

structure Source where
  text : String
  cells : List Cell
  masked : List Cell

namespace Source

def ofString (text : String) : Source where
  text := text
  cells := Cell.layout text.toList
  masked := Cell.layout (Mask.chars text.toList)

def size (source : Source) : Nat :=
  source.cells.length

/-- The whole masked text. -/
def view (source : Source) : Slice :=
  ⟨0, source.masked⟩

def locate (source : Source) (offset : Nat) : Location :=
  CodeOutline.locate source.text offset

/-- The characters of the text at the place of a slice. -/
def quote (source : Source) (slice : Slice) : String :=
  Cell.text ((source.cells.drop slice.start).take slice.cells.length)

/-- The text at the place of a slice of the masked text without the blanks around it, if any is
left. -/
def fragment? (source : Source) (slice : Slice) : Option String :=
  if slice.trim.isEmpty then none else some (source.quote slice.trim)

end Source

end CodeOutline
