import CodeOutline.Json.Basic
import CodeOutline.Text.Digits
import CodeOutline.Text.Reader

namespace CodeOutline.Json.Read

open Text
open Text.Reader

def isGap (c : Char) : Bool :=
  c = ' ' || c = '\n' || c = '\t' || c = '\r'

def gaps : Reader Unit := do
  let _ ← run isGap

/-- A mark with white space after it. -/
def mark (c : Char) : Reader Unit := do
  char c
  gaps

/-- A character of the upper plane, written as a pair of codes. -/
def pairedChar (high : Nat) : Reader Char := do
  Reader.word "\\u"
  let low ← Reader.digits 4 16 isHexDigit
  if 0xDC00 ≤ low ∧ low < 0xE000 then
    return Char.ofNat (0x10000 + (high - 0xD800) * 0x400 + (low - 0xDC00))
  failure

/-- An escaped character. Unless it is used, any code will do. -/
def escape (used : Bool) : Reader Char := do
  char '\\'
  let c ← next
  if c = '"' ∨ c = '\\' ∨ c = '/' then return c
  if c = 'b' then return '\x08'
  if c = 'f' then return '\x0c'
  if c = 'n' then return '\n'
  if c = 'r' then return '\r'
  if c = 't' then return '\t'
  unless c = 'u' do failure
  let code ← Reader.digits 4 16 isHexDigit
  if code.isValidChar ∨ !used then return Char.ofNat code
  if code < 0xDC00 then pairedChar code else failure

def string (used : Bool) : Reader String := do
  char '"'
  let chars ← many ((satisfy fun c => 0x20 ≤ c.toNat && c ≠ '"' && c ≠ '\\') <|> escape used)
  char '"'
  return String.ofList chars

def wholeNumber : Reader (List Char) := do
  if (← peek) = some '0' then return [← next]
  run1 Char.isDigit

def exponent : Reader Int := do
  let _ ← satisfy fun c => c = 'e' || c = 'E'
  let sign ← optional (satisfy fun c => c = '+' || c = '-')
  let value : Int := natOfDigits 10 (← run1 Char.isDigit)
  return if sign = some '-' then -value else value

/-- A number. One that is used has to fit double precision. -/
def plainNumber (used : Bool) : Reader Unit := do
  let _ ← optional (char '-')
  let whole ← wholeNumber
  let point ← optional (char '.')
  let decimals ← if point.isSome then run1 Char.isDigit else pure []
  let mark ← peek
  let power ← if mark = some 'e' ∨ mark = some 'E' then exponent else pure 0
  if used && !isFinite (whole ++ decimals) (power - decimals.length) then failure

def number (used : Bool) : Reader String :=
  literal (plainNumber used)

/-- Items in brackets with commas between them. -/
def bracketed {α : Type} (opening closing : Char) (item : Reader α) : Reader (List α) := do
  mark opening
  let items ← optional (separated (mark ',') (do
    let item ← item
    gaps
    return item))
  char closing
  return items.getD []

def member {α : Type} (used : Bool) (value : String → Reader α) : Reader α := do
  let key ← string used
  gaps
  mark ':'
  value key

def word (text : String) (value : Json) : Reader Json := do
  Reader.word text
  return value

/-- A value with at most so many levels of arrays and objects. -/
def value (used : Bool) : Nat → Reader Json
  | 0 => do
    match ← peek with
    | some 'n' => word "null" .null
    | some 't' => word "true" (.bool true)
    | some 'f' => word "false" (.bool false)
    | some '"' => return .string (← string used)
    | _ => return .number (← number used)
  | levels + 1 => do
    match ← peek with
    | some '[' => return .array (← bracketed '[' ']' (value used levels))
    | some '\x7b' =>
      return .object (← bracketed '\x7b' '\x7d' (member used fun key => do
        return (key, ← value used levels)))
    | _ => value used 0

/-- A value that is not used. -/
def ignored : Reader Unit := fun text =>
  (value false text.length text).map fun (_, rest) => ((), rest)

/-- What a reader makes of a whole text with white space around it. -/
def all? {α : Type} (reader : Reader α) (text : String) : Option α :=
  Reader.all? (do
    gaps
    let result ← reader
    gaps
    return result) text.toList

end CodeOutline.Json.Read
