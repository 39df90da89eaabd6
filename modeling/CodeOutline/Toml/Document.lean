import CodeOutline.Toml.Number

namespace CodeOutline.Toml

open Text
open Text.Reader

def comment : Reader Unit := do
  char '#'
  let _ ← run isVisible

def lineEnd : Reader Unit :=
  (do let _ ← newline) <|> atEnd

/-- Nothing more than a comment up to the end of the line. -/
def restOfLine : Reader Unit := do
  blanks
  let _ ← optional comment
  lineEnd

/-- White space, line breaks and comments inside of an array. -/
def gaps : Reader Unit := do
  blanks
  let _ ← many do
    (do comment; let _ ← newline) <|> (do let _ ← newline)
    blanks

def isBareKey (c : Char) : Bool :=
  c.isAlphanum || c = '-' || c = '_'

def simpleKey : Reader String := do
  match ← peek with
  | some '"' => basicString
  | some '\'' => literalString
  | _ => String.ofList <$> run1 isBareKey

/-- The deepest nesting of arrays and tables in braces, and the longest path of keys. -/
def deepestNesting : Nat := 79

/-- A path of keys with dots between them: the way to the last one and the last one itself. -/
def keyPath : Reader (List String × String) := do
  let keys ← separated (char '.') do
    blanks
    let key ← simpleKey
    blanks
    return key
  match keys.getLast? with
  | some last => if keys.length ≤ deepestNesting then return (keys.dropLast, last) else failure
  | none => failure

def scalar : Reader Value :=
  (do return .string (← string)) <|>
    (do return .dateTime (← literal dateTime)) <|>
    (do return .float (← literal float)) <|>
    (do return .integer (← integer)) <|>
    (do word "true"; return .boolean true) <|>
    (do word "false"; return .boolean false)

def array (item : Reader Value) : Reader Value := do
  char '['
  let item : Reader Value := do
    gaps
    let value ← item
    gaps
    return value
  let items ← optional (separated (char ',') item)
  if items.isSome then
    let _ ← optional (char ',')
  gaps
  char ']'
  return .array (items.getD [])

/-- A path of keys, an equals sign and a value. -/
def pair (value : Reader Value) : Reader (List String × String × Value) := do
  let (path, key) ← keyPath
  char '='
  blanks
  return (path, key, ← value)

def insertAll (pairs : List (List String × String × Value)) : Option Entries :=
  pairs.foldlM (fun entries (path, key, value) => entries.insert path key value .header) []

def braces (value : Reader Value) : Reader Value := do
  char '\x7b'
  let pair : Reader (List String × String × Value) := do
    let pair ← pair value
    blanks
    return pair
  let pairs ← optional (separated (char ',') pair)
  blanks
  char '\x7d'
  match insertAll (pairs.getD []) with
  | some entries => return .table .braces entries
  | none => failure

/-- A value with at most so many levels of arrays and tables. -/
def value : Nat → Reader Value
  | 0 => scalar
  | levels + 1 => do
    match ← peek with
    | some '[' => array (value levels)
    | some '\x7b' => braces (value levels)
    | _ => scalar

inductive Line where
  | blank
  | pair (path : List String) (key : String) (value : Value)
  | header (path : List String) (key : String)
  | element (path : List String) (key : String)
  deriving Repr

def header : Reader Line := do
  char '['
  if ← Option.isSome <$> optional (char '[') then
    let (path, key) ← keyPath
    word "]]"
    restOfLine
    return .element path key
  else
    let (path, key) ← keyPath
    char ']'
    restOfLine
    return .header path key

def line : Reader Line := do
  blanks
  match ← peek with
  | none => return .blank
  | some '[' => header
  | some '#' | some '\n' | some '\r' =>
    restOfLine
    return .blank
  | some _ =>
    let (path, key, value) ← pair (value deepestNesting)
    restOfLine
    return .pair path key value

/-- The entries of a document and the path to the table that pairs are added to. -/
structure Document where
  entries : Entries
  current : List String

namespace Document

def add (document : Document) : Line → Option Document
  | .blank => some document
  | .pair path key value =>
    let insert (origin : Origin) (inner : Entries) : Option Entries :=
      inner.insert path key value origin
    (document.entries.update .parent insert .header document.current).map fun entries =>
      { document with entries := entries }
  | .header path key =>
    (document.entries.openTable path key).map fun entries => ⟨entries, path ++ [key]⟩
  | .element path key =>
    (document.entries.openElement path key).map fun entries => ⟨entries, path ++ [key]⟩

end Document

/-- The entries of a document, if it is well-formed. -/
def parse? (text : String) : Option Entries :=
  let lines : Reader (List Line) := do
    let _ ← optional (char '\ufeff')
    many line
  (lines.all? text.toList).bind fun lines =>
    (lines.foldlM Document.add ⟨[], []⟩).map Document.entries

end CodeOutline.Toml
