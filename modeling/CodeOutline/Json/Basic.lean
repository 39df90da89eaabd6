namespace CodeOutline

inductive Json where
  | null
  | bool (value : Bool)
  /-- A number, kept as it is written. -/
  | number (literal : String)
  | string (text : String)
  | array (items : List Json)
  | object (members : List (String × Json))
  deriving Repr

namespace Json

def nat (number : Nat) : Json :=
  .number (toString number)

/-- A text or null. -/
def ofText? : Option String → Json
  | some text => .string text
  | none => .null

def strings (texts : List String) : Json :=
  .array (texts.map .string)

/-- The members that are there, in the given order. -/
def objectOf (members : List (String × Option Json)) : Json :=
  .object (members.filterMap fun member => member.2.map (member.1, ·))

def hexDigit (value : Nat) : Char :=
  if value < 10 then Char.ofNat (48 + value) else Char.ofNat (87 + value)

/-- A character as it is written inside quotes. -/
def escape (c : Char) : List Char :=
  if c = '"' then ['\\', '"']
  else if c = '\\' then ['\\', '\\']
  else if c = '\n' then ['\\', 'n']
  else if c = '\r' then ['\\', 'r']
  else if c = '\t' then ['\\', 't']
  else if c = '\x08' then ['\\', 'b']
  else if c = '\x0c' then ['\\', 'f']
  else if c.toNat < 0x20 then
    ['\\', 'u', '0', '0', hexDigit (c.toNat / 16), hexDigit (c.toNat % 16)]
  else [c]

def quoted (text : String) : String :=
  String.ofList ('"' :: text.toList.flatMap escape ++ ['"'])

mutual

def compact : Json → String
  | .null => "null"
  | .bool value => if value then "true" else "false"
  | .number literal => literal
  | .string text => quoted text
  | .array items => "[" ++ compactItems items ++ "]"
  | .object members => "\x7b" ++ compactMembers members ++ "\x7d"

def compactItems : List Json → String
  | [] => ""
  | [item] => item.compact
  | item :: others => item.compact ++ "," ++ compactItems others

def compactMembers : List (String × Json) → String
  | [] => ""
  | [(key, value)] => quoted key ++ ":" ++ value.compact
  | (key, value) :: others => quoted key ++ ":" ++ value.compact ++ "," ++ compactMembers others

end

/-- A line break and two spaces for each level. -/
def newline (level : Nat) : String :=
  String.ofList ('\n' :: List.replicate (2 * level) ' ')

mutual

def prettyFrom (level : Nat) : Json → String
  | .array [] => "[]"
  | .array items => "[" ++ prettyItems (level + 1) items ++ newline level ++ "]"
  | .object [] => "\x7b\x7d"
  | .object members => "\x7b" ++ prettyMembers (level + 1) members ++ newline level ++ "\x7d"
  | .null => "null"
  | .bool value => if value then "true" else "false"
  | .number literal => literal
  | .string text => quoted text

def prettyItems (level : Nat) : List Json → String
  | [] => ""
  | [item] => newline level ++ item.prettyFrom level
  | item :: others => newline level ++ item.prettyFrom level ++ "," ++ prettyItems level others

def prettyMembers (level : Nat) : List (String × Json) → String
  | [] => ""
  | [(key, value)] => newline level ++ quoted key ++ ": " ++ value.prettyFrom level
  | (key, value) :: others =>
    newline level ++ quoted key ++ ": " ++ value.prettyFrom level ++ "," ++
      prettyMembers level others

end

def pretty (value : Json) : String :=
  value.prettyFrom 0

mutual

/-- The same value with the members of objects in the order of their keys. -/
def sorted : Json → Json
  | .array items => .array (sortedItems items)
  | .object members =>
    .object ((sortedMembers members).mergeSort fun left right => left.1 ≤ right.1)
  | .null => .null
  | .bool value => .bool value
  | .number literal => .number literal
  | .string text => .string text

def sortedItems : List Json → List Json
  | [] => []
  | item :: others => item.sorted :: sortedItems others

def sortedMembers : List (String × Json) → List (String × Json)
  | [] => []
  | (key, value) :: others => (key, value.sorted) :: sortedMembers others

end

end Json

end CodeOutline
