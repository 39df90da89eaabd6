import CodeOutline.Script.Context

namespace CodeOutline.Script

open Grammar Parsing

def isKeyword (text : String) : Bool :=
  text.toList.all Char.isAlpha

/-- Keywords and marks with their numbers. -/
def literals : List (String × Nat) :=
  table.tokens.toList.filterMap fun
    | .literal text => some (text, number (.literal text))
    | _ => none

def keywords : Std.HashMap String Nat :=
  .ofList (literals.filter fun entry => isKeyword entry.1)

/-- Marks, longer ones before shorter ones. -/
def marks : List (List Char × Nat) :=
  ((literals.filter fun entry => !isKeyword entry.1).map fun (text, index) =>
    (text.toList, index)).mergeSort fun first second => second.1.length ≤ first.1.length

/-- Tokens that are known by a pattern and may follow a gap. -/
def patterns : List (Nat × (List Char → Nat)) := [
  (number .number, numberLength),
  (number .privateName, privateNameLength),
  (number .interpreterLine, interpreterLineLength),
  (number .characterReference, characterReferenceLength),
  (number .markupName, markupNameLength),
  (number .staticGetter, staticGetterLength),
  (number .comment, commentLength)]

/-- Tokens that begin right where the one before ends, and win over all others. -/
def attached : List (Nat × (List Char → Nat)) := [
  (number .doubleFragment, fragmentLength '"'),
  (number .singleFragment, fragmentLength '\''),
  (number .doubleMarkupFragment, markupFragmentLength '"'),
  (number .singleMarkupFragment, markupFragmentLength '\''),
  (number .regexEnd, fun text => if text.head? = some '/' then 1 else 0)]

def wordSet : TokenSet :=
  keywords.fold (fun set _ index => set ||| 1 <<< index) (setOf [.identifier])

/-- A word at the start of the text: a keyword if that may come, otherwise a name. -/
def word (expected : TokenSet) (text : List Char) (length : Nat) : Nat × Bool :=
  match keywords[String.ofList (text.take length)]? with
  | some index =>
    if expected.testBit index then (index, true) else (number .identifier, false)
  | none => (number .identifier, false)

/-- The longest of the expected tokens that the text begins with: its length, its number, and
whether it is a keyword. -/
def longest (expected : TokenSet) (text : List Char) : Nat × Nat × Bool :=
  let mark := (marks.find? fun (mark, index) =>
    expected.testBit index && mark.isPrefixOf text).map fun (mark, index) =>
      (mark.length, index, false)
  let best := patterns.foldl (fun best (index, lengthOf) =>
    if expected.testBit index && best.1 < lengthOf text then (lengthOf text, index, false)
    else best) (mark.getD (0, 0, false))
  let length := if expected &&& wordSet = 0 then 0 else wordLength text
  if best.1 < length then (length, word expected text length) else best

def skipGap (cursor : Cursor) : Cursor :=
  cursor.skip (countWhile isGap cursor.rest)

def escapeNumber : Nat := number .escape
def regexNumber : Nat := number .regexPattern
def flagsNumber : Nat := number .regexFlags

/-- Finds an expected token by its spelling. -/
def read (expected : TokenSet) (cursor : Cursor) : Option Token :=
  let own (index length : Nat) : Option Token :=
    some ⟨index, cursor, cursor.skip length, false⟩
  let fits (index : Nat) (length : Nat) : Bool := expected.testBit index && 0 < length
  match attached.find? fun (index, lengthOf) => fits index (lengthOf cursor.rest) with
  | some (index, lengthOf) => own index (lengthOf cursor.rest)
  | none =>
    let gap := countWhile isGap cursor.rest
    let place := cursor.skip gap
    let (length, index, isKeyword) := longest expected place.rest
    let reach := if length = 0 then 0 else gap + length
    let flags := countWhile (fun c => 'a' ≤ c && c ≤ 'z') cursor.rest
    if fits escapeNumber (escapeLength cursor.rest) && reach ≤ escapeLength cursor.rest then
      own escapeNumber (escapeLength cursor.rest)
    else if fits flagsNumber flags && reach ≤ flags then own flagsNumber flags
    else if expected.testBit regexNumber && reach < regexLength 0 cursor.rest then
      own regexNumber (regexLength 0 cursor.rest)
    else if 0 < length then some ⟨index, place, place.skip length, isKeyword⟩
    else if place.rest.isEmpty then some ⟨number .stop, place, place, false⟩
    else none

/-- Tokens that are looked for only where they are expected. -/
def unfamiliar : List Terminal :=
  [.stop, .regexPattern, .regexEnd, .regexFlags, .doubleFragment, .singleFragment,
    .doubleMarkupFragment, .singleMarkupFragment]

def scriptLexer : Lexer where
  scan := scan
  read := read
  skipGap := skipGap
  familiar := setOf (table.tokens.toList.filter fun terminal => !unfamiliar.contains terminal)

end CodeOutline.Script
