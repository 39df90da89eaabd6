import CodeOutline.Text.CharClass

namespace CodeOutline.Text

def trimLeft (text : List Char) : List Char :=
  text.dropWhile CharClass.isSpace

def trimRight (text : List Char) : List Char :=
  (text.reverse.dropWhile CharClass.isSpace).reverse

def trim (text : String) : String :=
  String.ofList (trimRight (trimLeft text.toList))

def isBlank (text : String) : Bool :=
  text.toList.all CharClass.isSpace

/-- The pieces between the characters that pass the test. -/
def pieces (test : Char → Bool) : List Char → List (List Char)
  | [] => [[]]
  | c :: rest =>
    if test c then [] :: pieces test rest
    else
      match pieces test rest with
      | [] => [[c]]
      | piece :: others => (c :: piece) :: others

/-- What follows a word, if the text begins with it. -/
def strip? : List Char → List Char → Option (List Char)
  | [], text => some text
  | _ :: _, [] => none
  | c :: word, d :: text => if c = d then strip? word text else none

/-- The longest run of characters that pass the test, which must not be empty, and what follows. -/
def run? (test : Char → Bool) (text : List Char) : Option (List Char × List Char) :=
  match text with
  | [] => none
  | c :: _ => if test c then some (text.takeWhile test, text.dropWhile test) else none

/-- The number that a word of ASCII digits writes, if it is below the bound. -/
def decimal? (bound : Nat) (digits : List Char) : Option Nat :=
  if digits.isEmpty || !digits.all Char.isDigit then none
  else
    let value := digits.foldl (fun value digit => 10 * value + (digit.toNat - 48)) 0
    if value < bound then some value else none

def isLineBreak (c : Char) : Bool :=
  c = '\n'

/-- The first line of a text without the white space at its end, of which one character stays if the
line holds nothing else. Nothing is read from an empty line. -/
def lineText? (text : List Char) : Option (List Char) :=
  let line := text.takeWhile (!isLineBreak ·)
  match trimRight line with
  | [] => if line.isEmpty then none else some (line.take 1)
  | content => some content

/-- The length of the white space at the start of a text up to the last place in it where a line
ends. -/
def lineEnd (text : List Char) : Nat :=
  let spaces := text.takeWhile CharClass.isSpace
  if spaces.length = text.length then spaces.length
  else (spaces.reverse.dropWhile (!isLineBreak ·)).length - 1

end CodeOutline.Text

namespace CodeOutline.Text

def spaces (count : Nat) : String :=
  String.ofList (List.replicate count ' ')

def padRight (width : Nat) (text : String) : String :=
  text ++ spaces (width - text.length)

def padLeft (width : Nat) (text : String) : String :=
  spaces (width - text.length) ++ text

/-- Centres a text; a space that is left over goes to the right. -/
def center (width : Nat) (text : String) : String :=
  let missing := width - text.length
  spaces (missing / 2) ++ text ++ spaces (missing - missing / 2)

/-- The first characters of a text. -/
def truncate (count : Nat) (text : String) : String :=
  String.ofList (text.toList.take count)

end CodeOutline.Text
