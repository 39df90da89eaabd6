import CodeOutline.Shell.Node
import CodeOutline.Text.Digits
import CodeOutline.Text.Scan

namespace CodeOutline.Shell

/-- The character that a single letter after a backslash stands for. -/
def escapeLetter? (c : Char) : Option Char :=
  [('a', '\x07'), ('b', '\x08'), ('f', '\x0c'), ('n', '\n'), ('r', '\r'), ('t', '\t'),
    ('v', '\x0b'), ('\\', '\\')].lookup c

/-- The byte that at most so many octal digits write, and what follows them. -/
def octalEscape (most : Nat) (text : Octets) : Char × Octets :=
  let digits := (text.take most).takeWhile Text.isOctalDigit
  (Char.ofNat (Text.natOfDigits 8 digits % 256), text.drop digits.length)

/-- An escape at the start of a text, from after the backslash on. `zero` tells whether a zero may
stand before the octal digits. -/
def escapeAt (zero : Bool) (text : Octets) : Octets × Octets :=
  match text with
  | [] => (['\\'], [])
  | c :: rest =>
    if zero && c = '0' then
      let (value, after) := octalEscape 3 rest
      ([value], after)
    else if Text.isOctalDigit c then
      let (value, after) := octalEscape 3 text
      ([value], after)
    else
      match escapeLetter? c with
      | some value => ([value], rest)
      | none => (['\\', c], rest)

/-- A text with its escapes, and whether one of them ends the output. -/
def unescaped : Nat → Octets → Octets × Bool
  | 0, text => (text, false)
  | _, [] => ([], false)
  | limit + 1, c :: rest =>
    if c = '\\' then
      if rest.head? = some 'c' then ([], true)
      else
        let (value, after) := escapeAt true rest
        let (others, stops) := unescaped limit after
        (value ++ others, stops)
    else
      let (others, stops) := unescaped limit rest
      (c :: others, stops)

/-- A conversion of a format: its flags, least width, precision and letter. -/
structure Conversion where
  flags : Octets
  width : Nat
  precision : Option Nat
  letter : Char

def pad (conversion : Conversion) (text : Octets) : Octets :=
  let missing := conversion.width - text.length
  if conversion.flags.contains '-' then text ++ List.replicate missing ' '
  else if conversion.flags.contains '0' && conversion.letter ≠ 's' then
    match text with
    | '-' :: digits => '-' :: List.replicate missing '0' ++ digits
    | text => List.replicate missing '0' ++ text
  else List.replicate missing ' ' ++ text

/-- The number that an argument writes, and whether all of it does. -/
def argumentNumber (text : Octets) : Int × Bool :=
  let text := text.dropWhile (· = ' ')
  let (negative, digits) := match text with
    | '-' :: rest => (true, rest)
    | '+' :: rest => (false, rest)
    | rest => (false, rest)
  let signed (value : Nat) : Int := if negative then -(value : Int) else value
  match digits with
  | '\'' :: c :: _ | '"' :: c :: _ => (c.toNat, true)
  | '0' :: 'x' :: rest =>
    (signed (Text.natOfDigits 16 (rest.takeWhile Text.isHexDigit)), rest.all Text.isHexDigit)
  | '0' :: rest =>
    (signed (Text.natOfDigits 8 (rest.takeWhile Text.isOctalDigit)), rest.all Text.isOctalDigit)
  | digits =>
    (signed (Text.natOfDigits 10 (digits.takeWhile Char.isDigit)),
      text.isEmpty || (!digits.isEmpty && digits.all Char.isDigit))

/-- The text of a converted argument, a message if it is no number, and whether the output ends. -/
def convert (conversion : Conversion) (argument : Octets) : Octets × Option String × Bool :=
  let numeric (write : Int → List Char) : Octets × Option String × Bool :=
    let (value, isWhole) := argumentNumber argument
    let digits := write value
    let digits := match conversion.precision with
      | some precision => List.replicate (precision - digits.length) '0' ++ digits
      | none => digits
    let message := if isWhole then none
      else some ("printf: " ++ String.ofList argument ++
        (if argument.head?.any Char.isDigit then ": not completely converted"
          else ": expected numeric value"))
    (pad conversion digits, message, false)
  let natural (value : Int) : Nat := (value % UInt64.size).toNat
  if conversion.letter = 's' then
    let text := match conversion.precision with
      | some precision => argument.take precision
      | none => argument
    (pad conversion text, none, false)
  else if conversion.letter = 'b' then
    let (text, stops) := unescaped (argument.length + 1) argument
    (pad conversion text, none, stops)
  else if conversion.letter = 'c' then (pad conversion (argument.take 1), none, false)
  else if conversion.letter = 'x' then numeric fun value => Nat.toDigits 16 (natural value)
  else if conversion.letter = 'X' then
    numeric fun value => (Nat.toDigits 16 (natural value)).map Char.toUpper
  else if conversion.letter = 'o' then numeric fun value => Nat.toDigits 8 (natural value)
  else if conversion.letter = 'u' then numeric fun value => Nat.toDigits 10 (natural value)
  else numeric fun value => (toString value).toList

/-- The conversion at the start of a text, from after the percent sign on. -/
def conversion? (text : Octets) : Option (Conversion × Octets) :=
  let flags := text.takeWhile fun c => ['-', '+', ' ', '0', '#'].contains c
  let rest := text.drop flags.length
  let width := rest.takeWhile Char.isDigit
  let rest := rest.drop width.length
  let (precision, rest) := match rest with
    | '.' :: rest =>
      (some (Text.natOfDigits 10 (rest.takeWhile Char.isDigit)), rest.dropWhile Char.isDigit)
    | rest => (none, rest)
  match rest with
  | letter :: rest => some (⟨flags, Text.natOfDigits 10 width, precision, letter⟩, rest)
  | [] => none

structure Formatted where
  text : Octets
  messages : List String
  /-- The arguments that are left. -/
  arguments : List Octets
  stops : Bool

/-- One round through a format. -/
def formatOnce : Nat → Octets → List Octets → Formatted
  | 0, _, arguments => ⟨[], [], arguments, true⟩
  | _, [], arguments => ⟨[], [], arguments, false⟩
  | limit + 1, c :: rest, arguments =>
    let after (text : Octets) (messages : List String) (rest : Octets) (arguments : List Octets) :
        Formatted :=
      let others := formatOnce limit rest arguments
      { others with text := text ++ others.text, messages := messages ++ others.messages }
    if c = '\\' then
      let (value, rest) := escapeAt false rest
      after value [] rest arguments
    else if c = '%' then
      match rest with
      | '%' :: rest => after ['%'] [] rest arguments
      | _ =>
        match conversion? rest with
        | none => ⟨[], ["printf: missing format character"], arguments, true⟩
        | some (conversion, rest) =>
          if ['s', 'b', 'c', 'd', 'i', 'u', 'x', 'X', 'o'].contains conversion.letter then
            let (text, message, stops) := convert conversion (arguments.headD [])
            if stops then ⟨text, message.toList, [], true⟩
            else after text message.toList rest arguments.tail
          else
            ⟨[], ["printf: %" ++ String.ofList [conversion.letter] ++ ": invalid directive"],
              [], true⟩
    else after [c] [] rest arguments

/-- Output of a format, which is used again as long as it takes arguments and some are left. -/
def format (text : Octets) : Nat → List Octets → Octets × List String
  | 0, _ => ([], [])
  | limit + 1, arguments =>
    let once := formatOnce (text.length + 1) text arguments
    if once.stops || once.arguments.isEmpty || once.arguments.length = arguments.length then
      (once.text, once.messages)
    else
      let (others, messages) := format text limit once.arguments
      (once.text ++ others, once.messages ++ messages)

end CodeOutline.Shell
