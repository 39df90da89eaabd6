import CodeOutline.Text.Reader

namespace CodeOutline.Toml

open Text
open Text.Reader

/-- Space or tab. -/
def isBlank (c : Char) : Bool :=
  c = ' ' || c = '\t'

/-- A tab or a character that is no control character of ASCII. -/
def isVisible (c : Char) : Bool :=
  c = '\t' || (0x20 ≤ c.toNat && c ≠ '\x7f')

def blanks : Reader Unit := do
  let _ ← run isBlank

def newline : Reader (List Char) := do
  (char '\n' <|> word "\r\n")
  return ['\n']

/-- The character with the code that the given number of hexadecimal digits writes. -/
def codedChar (length : Nat) : Reader Char := do
  let code ← Reader.digits length 16 isHexDigit
  if code.isValidChar then return Char.ofNat code else failure

def escape : Reader (List Char) := do
  char '\\'
  let c ← next
  if c = 'b' then return ['\x08']
  if c = 't' then return ['\t']
  if c = 'n' then return ['\n']
  if c = 'f' then return ['\x0c']
  if c = 'r' then return ['\r']
  if c = '"' ∨ c = '\\' then return [c]
  if c = 'u' then return [← codedChar 4]
  if c = 'U' then return [← codedChar 8]
  failure

/-- A backslash that hides a line break and the white space after it. -/
def hiddenBreak : Reader (List Char) := do
  char '\\'
  blanks
  let _ ← newline
  let _ ← many (run1 isBlank <|> newline)
  return []

/-- One or two quotes that do not end a string. -/
def innerQuotes (quote : Char) : Reader (List Char) := fun text =>
  let quotes := text.takeWhile (· = quote)
  if quotes.length < 3 then run1 (· = quote) text else none

/-- The quotes that end a string on several lines; up to two more before them are part of it. -/
def lastQuotes (quote : Char) : Reader (List Char) := fun text =>
  let count := (text.takeWhile (· = quote)).length
  if count < 3 then none
  else some (List.replicate (min (count - 3) 2) quote, text.drop (min count 5))

def multiline (quote : Char) (content : Reader (List Char)) : Reader String := do
  word (String.ofList [quote, quote, quote])
  let _ ← optional newline
  let parts ← many content
  let last ← lastQuotes quote
  return String.ofList (parts.flatten ++ last)

def single (quote : Char) (content : Reader (List Char)) : Reader String := do
  char quote
  let parts ← many content
  char quote
  return String.ofList parts.flatten

def plain (quote : Char) : Reader (List Char) :=
  run1 fun c => isVisible c && c ≠ quote && (quote = '\'' || c ≠ '\\')

def basicString : Reader String :=
  single '"' (plain '"' <|> escape)

def literalString : Reader String :=
  single '\'' (plain '\'')

def string : Reader String :=
  multiline '"' (plain '"' <|> newline <|> hiddenBreak <|> escape <|> innerQuotes '"') <|>
    basicString <|>
    multiline '\'' (plain '\'' <|> newline <|> innerQuotes '\'') <|>
    literalString

end CodeOutline.Toml
