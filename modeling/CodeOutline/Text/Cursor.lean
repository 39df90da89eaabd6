namespace CodeOutline

structure Point where
  byte : Nat
  row : Nat
  column : Nat
  deriving DecidableEq, Repr, Inhabited

/-- The point that follows a character standing at this one. -/
def Point.after (point : Point) (c : Char) : Point :=
  if c = '\n' then ⟨point.byte + c.utf8Size, point.row + 1, 0⟩
  else ⟨point.byte + c.utf8Size, point.row, point.column + c.utf8Size⟩

/-- A point with the text from there on. -/
structure Cursor where
  point : Point
  rest : List Char
  deriving Repr, Inhabited

namespace Cursor

def ofText (text : String) : Cursor :=
  ⟨⟨0, 0, 0⟩, text.toList⟩

/-- Moves over the given number of characters. -/
def skip : Nat → Cursor → Cursor
  | 0, cursor => cursor
  | count + 1, ⟨point, c :: rest⟩ => skip count ⟨point.after c, rest⟩
  | _ + 1, ⟨point, []⟩ => ⟨point, []⟩

/-- Whether one cursor of a text is farther than another one. -/
def isAfter (later earlier : Cursor) : Bool :=
  earlier.point.byte < later.point.byte

end Cursor

end CodeOutline
