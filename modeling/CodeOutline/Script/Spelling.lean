import CodeOutline.Text.Digits
import CodeOutline.Text.Scan

namespace CodeOutline.Script

/-- White space and the characters that count as such between tokens. -/
def isGap (c : Char) : Bool :=
  CharClass.isSpace c || c = '\ufeff' || c = '\u2060' || c = '\u200b'

def isLineTerminator (c : Char) : Bool :=
  c = '\n' || c = '\r' || c = '\u2028' || c = '\u2029'

def punctuation : List Char :=
  ":;\x60\"'@#.,|^&<=>+-*/\\%?!~()[]\x7b\x7d".toList

def isWordPart (c : Char) : Bool :=
  0x20 ≤ c.toNat && !isGap c && !punctuation.contains c

def countWhile (test : Char → Bool) (text : List Char) : Nat :=
  (text.takeWhile test).length

/-- The length of an escape in a word or a string that gives a character by its code. -/
def codeEscapeLength (text : List Char) : Nat :=
  match Text.strip? ['\\', 'u'] text with
  | none => 0
  | some digits =>
    if 4 ≤ countWhile Text.isHexDigit digits then 6
    else
      match Text.strip? ['\x7b'] digits with
      | none => 0
      | some digits =>
        let count := countWhile Text.isHexDigit digits
        if 0 < count && (digits.drop count).head? = some '\x7d' then count + 4 else 0

/-- The length of the word parts at the start of the text. The given number of characters belongs to
an escape. -/
def wordPartsLength (skipped : Nat) : List Char → Nat
  | [] => 0
  | c :: rest =>
    match skipped with
    | skipped + 1 => wordPartsLength skipped rest + 1
    | 0 =>
      if isWordPart c then wordPartsLength 0 rest + 1
      else
        match codeEscapeLength (c :: rest) with
        | 0 => 0
        | length + 1 => wordPartsLength length rest + 1

def wordLength (text : List Char) : Nat :=
  if text.head?.any Char.isDigit then 0 else wordPartsLength 0 text

def privateNameLength : List Char → Nat
  | '#' :: name => if 0 < wordLength name then wordLength name + 1 else 0
  | _ => 0

/-- Names with a hyphen, of ASCII characters. -/
def markupNameLength (text : List Char) : Nat :=
  let isPart (c : Char) : Bool := c.isAlphanum || c = '_' || c = '$'
  let first := countWhile isPart text
  let rest := text.drop first
  if 0 < first && !text.head?.any Char.isDigit && rest.head? = some '-' then
    first + countWhile (fun c => isPart c || c = '-') rest
  else 0

/-- The length of further digits, before each of which an underscore may stand. -/
def moreDigits (isDigit : Char → Bool) : List Char → Nat
  | '_' :: c :: rest => if isDigit c then moreDigits isDigit rest + 2 else 0
  | c :: rest => if isDigit c then moreDigits isDigit rest + 1 else 0
  | [] => 0

def digitsLength (isDigit : Char → Bool) : List Char → Nat
  | [] => 0
  | c :: rest => if isDigit c then moreDigits isDigit rest + 1 else 0

def exponentLength : List Char → Nat
  | c :: rest =>
    if c = 'e' || c = 'E' then
      let sign := if rest.head? = some '+' || rest.head? = some '-' then 1 else 0
      let digits := digitsLength Char.isDigit (rest.drop sign)
      if 0 < digits then 1 + sign + digits else 0
    else 0
  | [] => 0

/-- A number in another base than ten, without the letter at its end that makes it a big one. -/
def radixLength : List Char → Nat
  | '0' :: letter :: digits =>
    let count :=
      if letter = 'x' || letter = 'X' then digitsLength Text.isHexDigit digits
      else if letter = 'o' || letter = 'O' then digitsLength Text.isOctalDigit digits
      else if letter = 'b' || letter = 'B' then digitsLength Text.isBinaryDigit digits
      else 0
    if 0 < count then count + 2 else 0
  | _ => 0

/-- Whether digits may stand before a decimal point. At most one zero may come first. -/
def isWhole (digits : List Char) : Bool :=
  digits = ['0'] ||
    ((Text.strip? ['0'] digits).getD digits).head?.any fun c => c.isDigit && c ≠ '0'

def numberLength (text : List Char) : Nat :=
  let radix := radixLength text
  let digits := digitsLength Char.isDigit text
  let plain := max radix digits
  let big := if 0 < plain && (text.drop plain).head? = some 'n' then plain + 1 else plain
  let rest := text.drop digits
  let fraction := digitsLength Char.isDigit rest.tail
  let isDecimal := isWhole (text.take digits) || (digits = 0 && 0 < fraction)
  let decimal :=
    if !isDecimal then 0
    else if rest.head? = some '.' then
      digits + 1 + fraction + exponentLength (rest.drop (1 + fraction))
    else if 0 < digits && 0 < exponentLength rest then digits + exponentLength rest
    else 0
  max big decimal

def escapeLength : List Char → Nat
  | '\\' :: c :: rest =>
    if c = 'x' then if 2 ≤ countWhile Text.isHexDigit rest then 4 else 0
    else if c = 'u' then codeEscapeLength ('\\' :: c :: rest)
    else if Text.isOctalDigit c then 1 + countWhile Text.isOctalDigit ((c :: rest).take 3)
    else if (c = '\r' || c = '?') && rest.head?.any (fun d => isLineTerminator d && d ≠ '\r') then 3
    else 2
  | _ => 0

/-- The length of a block comment from after its opening on. -/
def blockCommentLength? : List Char → Option Nat
  | '*' :: '/' :: _ => some 2
  | _ :: rest => (blockCommentLength? rest).map (· + 1)
  | [] => none

def commentLength : List Char → Nat
  | '/' :: '/' :: rest => 2 + countWhile (!isLineTerminator ·) rest
  | '/' :: '*' :: rest => ((blockCommentLength? rest).map (· + 2)).getD 0
  | _ => 0

def interpreterLineLength : List Char → Nat
  | '#' :: '!' :: rest => 2 + countWhile (· ≠ '\n') rest
  | _ => 0

def fragmentLength (quote : Char) (text : List Char) : Nat :=
  countWhile (fun c => c ≠ quote && c ≠ '\\' && c ≠ '\r' && c ≠ '\n') text

/-- The length of what is written between quotes in markup. An ampersand that might begin a
reference does not belong to it. -/
def markupFragmentLength (quote : Char) : List Char → Nat
  | '&' :: c :: rest =>
    if c = '#' || c.isAlpha then 0 else markupFragmentLength quote rest + 2
  | c :: rest => if c = quote || c = '&' then 0 else markupFragmentLength quote rest + 1
  | [] => 0

/-- The length of a reference to a character by its code or by its name. -/
def characterReferenceLength (text : List Char) : Nat :=
  let close (before most : Nat) (test : Char → Bool) (rest : List Char) : Nat :=
    let count := countWhile test rest
    if 0 < count && count ≤ most && (rest.drop count).head? = some ';' then before + count + 1
    else 0
  match text with
  | '&' :: '#' :: rest =>
    if rest.head? = some 'x' || rest.head? = some 'X' then close 3 6 Text.isHexDigit rest.tail
    else close 2 5 Char.isDigit rest
  | '&' :: rest => close 1 30 Char.isAlpha rest
  | _ => 0

/-- The length of a class of characters in a regular expression, from after its opening on. -/
def regexClassLength? : List Char → Option Nat
  | ']' :: _ => some 1
  | '\\' :: c :: rest => if c = '\n' then none else (regexClassLength? rest).map (· + 2)
  | c :: rest => if c = '\n' || c = '\\' then none else (regexClassLength? rest).map (· + 1)
  | [] => none

/-- The length of a regular expression up to its end. The given number of characters belongs to a
class. -/
def regexLength (skipped : Nat) : List Char → Nat
  | [] => 0
  | c :: rest =>
    match skipped with
    | skipped + 1 => regexLength skipped rest + 1
    | 0 =>
      if c = '/' || c = '\n' then 0
      else if c = '\\' then
        if rest.head?.any (· ≠ '\n') then regexLength 1 rest + 1 else 0
      else if c = '[' then
        match regexClassLength? rest with
        | some length => regexLength length rest + 1
        | none => 0
      else regexLength 0 rest + 1

/-- The length of the words of a static reader of a property whose name is on a later line. -/
def staticGetterLength (text : List Char) : Nat :=
  match Text.strip? "static".toList text with
  | none => 0
  | some rest =>
    let gap := countWhile CharClass.isSpace rest
    match Text.strip? "get".toList (rest.drop gap) with
    | none => 0
    | some rest =>
      let end_ := (rest.takeWhile CharClass.isSpace).reverse.dropWhile (· ≠ '\n')
      if 0 < gap && !end_.isEmpty then "static".length + gap + "get".length + end_.length else 0

end CodeOutline.Script
