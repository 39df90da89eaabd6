import CodeOutline.Text.Digits
import CodeOutline.Text.Scan

namespace CodeOutline.Text

abbrev Reader := StateT (List Char) Option

namespace Reader

variable {α : Type}

/-- The next character, which is not taken. -/
def peek : Reader (Option Char) := fun text => some (text.head?, text)

def next : Reader Char
  | [] => none
  | c :: rest => some (c, rest)

def satisfy (test : Char → Bool) : Reader Char
  | [] => none
  | c :: rest => if test c then some (c, rest) else none

def char (c : Char) : Reader Unit := fun text =>
  (strip? [c] text).map fun rest => ((), rest)

def word (word : String) : Reader Unit := fun text =>
  (strip? word.toList text).map fun rest => ((), rest)

/-- The longest run of characters that pass the test. -/
def run (test : Char → Bool) : Reader (List Char) := fun text =>
  some (text.takeWhile test, text.dropWhile test)

/-- The longest run of characters that pass the test, which must not be empty. -/
def run1 (test : Char → Bool) : Reader (List Char) := fun text =>
  Text.run? test text

def atEnd : Reader Unit
  | [] => some ((), [])
  | _ :: _ => none

/-- A number that as many characters write, all of which pass the test. -/
def digits (length base : Nat) (test : Char → Bool) : Reader Nat := fun text =>
  let digits := text.take length
  if digits.length = length ∧ digits.all test then
    some (natOfDigits base digits, text.drop length)
  else none

/-- Reads as often as it can, as long as the text gets shorter. -/
def collect (reader : Reader α) (text : List Char) : List α × List Char :=
  match reader text with
  | none => ([], text)
  | some (result, rest) =>
    if rest.length < text.length then
      let (others, last) := collect reader rest
      (result :: others, last)
    else ([], text)
termination_by text.length

def many (reader : Reader α) : Reader (List α) := fun text =>
  some (collect reader text)

/-- One or more readings with a separator between them. -/
def separated (separator : Reader Unit) (reader : Reader α) : Reader (List α) := do
  let first ← reader
  let others ← many (do separator; reader)
  return first :: others

/-- What a reader takes, as text. -/
def literal (reader : Reader Unit) : Reader String := fun text =>
  (reader text).map fun (_, rest) =>
    (String.ofList (text.take (text.length - rest.length)), rest)

/-- What a reader makes of a whole text. -/
def all? (reader : Reader α) (text : List Char) : Option α :=
  match reader text with
  | some (result, []) => some result
  | _ => none

end Reader

end CodeOutline.Text
