import CodeOutline.Text.Scan
import CodeOutline.Text.Slice

namespace CodeOutline.Keyword

def all : List String :=
  ["if", "else", "for", "while", "do", "switch", "case", "default", "return", "break", "continue",
    "goto", "sizeof", "typedef"]

def isKeyword (word : String) : Bool :=
  all.contains word

/-- Whether a keyword stands in a text between characters that are neither letters, numbers nor
underscores. -/
def occursIn (text : String) : Bool :=
  (Text.pieces (fun c => !(CharClass.isAlphanumeric c || c = '_')) text.toList).any fun piece =>
    isKeyword (String.ofList piece)

end CodeOutline.Keyword

namespace CodeOutline

namespace Slice

/-- The word that the slice begins with and what follows it, where a word begins with an ASCII
letter or an underscore and goes on with characters of the class. -/
def word? (cls : Char → Bool) (slice : Slice) : Option (Slice × Slice) :=
  match slice.cells with
  | [] => none
  | cell :: rest =>
    if cell.begins CharClass.isWordStart then
      let length := 1 + (rest.takeWhile (Cell.within cls)).length
      some (slice.take length, slice.drop length)
    else none

end Slice

structure Declarator where
  typeWords : Slice
  name : Slice
  rest : Slice
  deriving DecidableEq, Repr

namespace Declarator

def isSeparator (c : Char) : Bool :=
  CharClass.isSpace c || c = '*'

/-- Reads on in a run of separated words. Gives the number of words and where the last one starts
and stops; `stop` tells where it stopped once a separator has been met. -/
def readWords (count start : Nat) (stop : Option Nat) (position : Nat) :
    List Cell → Nat × Nat × Nat
  | [] => (count, start, stop.getD position)
  | cell :: rest =>
    match stop with
    | none =>
      if cell.within CharClass.isWord then readWords count start none (position + 1) rest
      else if cell.begins isSeparator then
        readWords count start (some position) (position + 1) rest
      else (count, start, position)
    | some stop =>
      if cell.within isSeparator then readWords count start (some stop) (position + 1) rest
      else if cell.begins CharClass.isWordStart then
        readWords (count + 1) position none (position + 1) rest
      else (count, start, stop)

/-- The longest run of words at the start of the slice, of which the last is the name. There must be
two words at least, and no keyword among them. -/
def read? (slice : Slice) : Option Declarator :=
  match slice.cells with
  | [] => none
  | cell :: rest =>
    if cell.begins CharClass.isWordStart then
      let (count, start, stop) := readWords 1 slice.start none (slice.start + 1) rest
      let typeWords := slice.toOffset start
      let name := (slice.fromOffset start).toOffset stop
      if 2 ≤ count ∧ !Keyword.occursIn typeWords.text ∧ !Keyword.isKeyword name.text then
        some ⟨typeWords, name, slice.fromOffset stop⟩
      else none
    else none

/-- Where the array suffixes and the white space at the start of a text end. `opened` is where the
suffix being read began: if it does not close, it is not taken. Unless `multiline`, a suffix does
not go over a line break. -/
def suffixEnd (multiline : Bool) (opened : Option Nat) (position : Nat) : List Cell → Nat
  | [] => opened.getD position
  | cell :: rest =>
    match opened with
    | none =>
      if cell.isAscii '[' then suffixEnd multiline (some position) (position + 1) rest
      else if cell.within CharClass.isSpace then suffixEnd multiline none (position + 1) rest
      else position
    | some start =>
      if cell.isAscii ']' then suffixEnd multiline none (position + 1) rest
      else if cell.isAscii '\n' ∧ !multiline then start
      else suffixEnd multiline (some start) (position + 1) rest

end Declarator

end CodeOutline
