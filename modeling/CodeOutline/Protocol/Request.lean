import CodeOutline.Json.Reader
import CodeOutline.Service.Basic

namespace CodeOutline

/-- How deeply the parameters of a command may be nested. -/
def deepestParameters : Nat := 126

structure Request where
  command : String
  parameters : Option Json

namespace Request

open Text

/-- What a request says under one key. -/
inductive Member where
  | command (text : String)
  | parameters (value : Option Json)
  | other

/-- A value that may be null. -/
def nullable : Reader (Option Json) := do
  let value ← Json.Read.value true deepestParameters
  match value with
  | .null => return none
  | value => return some value

def member : Reader Member :=
  Json.Read.member true fun key => do
    if key = "command" then return .command (← Json.Read.string true)
    if key = "params" then return .parameters (← nullable)
    Json.Read.ignored
    return .other

/-- The request of an object. No key of a request may stand in it twice. -/
def ofMembers? (members : List Member) : Option Request :=
  let commands := members.filterMap fun
    | .command text => some text
    | _ => none
  let parameters := members.filterMap fun
    | .parameters value => some value
    | _ => none
  match commands, parameters with
  | [command], [] => some ⟨command, none⟩
  | [command], [value] => some ⟨command, value⟩
  | _, _ => none

def reader : Reader Request := do
  if (← Reader.peek) = some '[' then
    Json.Read.mark '['
    let command ← Json.Read.string true
    Json.Read.gaps
    Json.Read.mark ','
    let parameters ← nullable
    Json.Read.gaps
    Reader.char ']'
    return ⟨command, parameters⟩
  else
    match ofMembers? (← Json.Read.bracketed '\x7b' '\x7d' member) with
    | some request => return request
    | none => failure

def ofLine? (line : String) : Option Request :=
  Json.Read.all? reader line

end Request

/-- The parameters of a request to compile. -/
structure CompileParameters where
  language : Option String := none
  code : Option String := none

namespace CompileParameters

def text? : Json → Option (Option String)
  | .null => some none
  | .string text => some (some text)
  | _ => none

/-- The last value under a key; a text or null, if there is one. -/
def field? (key : String) (members : List (String × Json)) : Option (Option String) :=
  match members.reverse.lookup key with
  | none => some none
  | some value => text? value

def ofJson? : Json → Option CompileParameters
  | .object members => do
    return { language := ← field? "language" members, code := ← field? "code" members }
  | .array [language, code] => do
    return { language := ← text? language, code := ← text? code }
  | _ => none

end CompileParameters

end CodeOutline
