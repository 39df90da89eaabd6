import CodeOutline.Text.Digits
import CodeOutline.Toml.Quoted
import CodeOutline.Toml.Value

namespace CodeOutline.Toml

open Text
open Text.Reader

/-- A digit with the underscore before it, which stands between digits only. -/
def laterDigit (test : Char → Bool) : Reader Char := do
  let _ ← optional (char '_')
  satisfy test

def digitRun (test : Char → Bool) : Reader (List Char) := do
  let first ← satisfy test
  let others ← many (laterDigit test)
  return first :: others

/-- A sign and whether it is a minus. -/
def sign : Reader Bool := do
  return (← optional (satisfy fun c => c = '+' || c = '-')) = some '-'

/-- Decimal digits of which the first is zero only if it stands alone. -/
def wholeDigits : Reader (List Char) := do
  if (← peek) = some '0' then return [← next]
  digitRun Char.isDigit

def bounded (number : Int) : Reader Int :=
  if Int64.minValue.toInt ≤ number ∧ number ≤ Int64.maxValue.toInt then return number else failure

def radixInteger (mark : String) (base : Nat) (test : Char → Bool) : Reader Int := do
  word mark
  let digits ← digitRun test
  bounded (natOfDigits base digits)

def integer : Reader Int :=
  radixInteger "0x" 16 isHexDigit <|>
    radixInteger "0o" 8 isOctalDigit <|>
    radixInteger "0b" 2 isBinaryDigit <|> do
      let negative ← sign
      let value : Int := natOfDigits 10 (← wholeDigits)
      bounded (if negative then -value else value)

def exponent : Reader Int := do
  let _ ← satisfy fun c => c = 'e' || c = 'E'
  let negative ← sign
  let value : Int := natOfDigits 10 (← digitRun Char.isDigit)
  return if negative then -value else value

def fraction : Reader (List Char) := do
  char '.'
  digitRun Char.isDigit

/-- A number with a fraction or an exponent. An overflow is allowed below zero only. -/
def decimalFloat : Reader Unit := do
  let negative ← sign
  let whole ← wholeDigits
  let decimals ← optional fraction
  let power ← if decimals.isSome then optional exponent else some <$> exponent
  let decimals := decimals.getD []
  unless negative || isFinite (whole ++ decimals) (power.getD 0 - decimals.length) do failure

def float : Reader Unit :=
  decimalFloat <|> do
    let _ ← sign
    word "inf" <|> word "nan"

/-- A number of as many digits, within bounds. -/
def fixedDigits (length low high : Nat) : Reader Nat := do
  let number ← Reader.digits length 10 Char.isDigit
  if low ≤ number ∧ number ≤ high then return number else failure

def isLeapYear (year : Nat) : Bool :=
  year % 4 = 0 && (year % 100 ≠ 0 || year % 400 = 0)

def daysIn (year month : Nat) : Nat :=
  if month = 2 then if isLeapYear year then 29 else 28
  else if [4, 6, 9, 11].contains month then 30
  else 31

def date : Reader Unit := do
  let year ← fixedDigits 4 0 9999
  char '-'
  let month ← fixedDigits 2 1 12
  char '-'
  let _ ← fixedDigits 2 1 (daysIn year month)

/-- A time of day, in which a minute may have a leap second. -/
def time : Reader Unit := do
  let _ ← fixedDigits 2 0 23
  char ':'
  let _ ← fixedDigits 2 0 59
  char ':'
  let _ ← fixedDigits 2 0 60
  let _ ← optional (do char '.'; run1 Char.isDigit)

def offset : Reader Unit :=
  char 'Z' <|> char 'z' <|> do
    char '+' <|> char '-'
    let _ ← fixedDigits 2 0 23
    char ':'
    let _ ← fixedDigits 2 0 59

def dateTime : Reader Unit :=
  (do
    date
    let _ ← optional do
      let _ ← satisfy fun c => c = 'T' || c = 't' || c = ' '
      time
      optional offset) <|> time

end CodeOutline.Toml
