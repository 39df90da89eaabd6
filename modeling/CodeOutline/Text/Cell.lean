import CodeOutline.Text.CharClass

/-!
A text laid out byte by byte. Offsets everywhere count bytes of UTF-8, so a text is a list of cells,
one for each byte, and each cell knows the character that begins at it.
-/

namespace CodeOutline

/-- A byte of a text, with the character that begins there unless it continues one. -/
structure Cell where
  byte : UInt8
  char? : Option Char
  deriving DecidableEq, Repr, Inhabited

namespace Cell

def ofChar (c : Char) : List Cell :=
  match String.utf8EncodeChar c with
  | [] => []
  | first :: others => ⟨first, some c⟩ :: others.map (⟨·, none⟩)

def layout (chars : List Char) : List Cell :=
  chars.flatMap ofChar

/-- The characters that begin in the given cells. -/
def chars (cells : List Cell) : List Char :=
  cells.filterMap char?

def text (cells : List Cell) : String :=
  String.ofList (chars cells)

/-- Whether the cell belongs to a character of a class; a continuing byte goes with the byte
before. -/
def within (cls : Char → Bool) (cell : Cell) : Bool :=
  match cell.char? with
  | some c => cls c
  | none => true

/-- Whether a character of the class begins at the cell. -/
def begins (cls : Char → Bool) (cell : Cell) : Bool :=
  cell.char?.any cls

def isBlank (cell : Cell) : Bool :=
  CharClass.isBlank cell.byte

def isAscii (cell : Cell) (c : Char) : Bool :=
  cell.byte = c.val.toUInt8

end Cell

/-- Whether an offset lies between two characters or at the end of the text. -/
def Cell.isBoundary (cells : List Cell) (offset : Nat) : Bool :=
  match cells[offset]? with
  | some cell => cell.char?.isSome
  | none => offset = cells.length

end CodeOutline
