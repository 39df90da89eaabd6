import CodeOutline.Shell.Token

namespace CodeOutline.Shell

abbrev Parser := StateT Source (Except ScriptError)

namespace Parser

def peek : Parser Token := fun source =>
  (Token.read source).map fun (token, _) => (token, source)

def take : Parser Token := fun source => Token.read source

def refuse {α : Type} (message : String) : Parser α := fun source =>
  .error ⟨source.line, message⟩

def reservedWords : List String :=
  ["if", "then", "elif", "else", "fi", "while", "until", "for", "in", "do", "done", "case", "esac",
    "\x7b", "\x7d", "!"]

/-- A token as it is named in messages. -/
def describe (token : Token) : String :=
  match token with
  | .stop => "end of file"
  | .newline => "newline"
  | .mark text => "\"" ++ text ++ "\""
  | .redirect _ _ => "redirection"
  | .word _ =>
    match token.plainText? with
    | some text => if reservedWords.contains text then "\"" ++ text ++ "\"" else "word"
    | none => "word"

def unexpected {α : Type} (expected : Option String) : Parser α := fun source => do
  let (token, after) ← Token.read source
  let wanted := expected.elim "" fun name => " (expecting \"" ++ name ++ "\")"
  throw ⟨if token = .newline then source.line else after.line,
    "Syntax error: " ++ describe token ++ " unexpected" ++ wanted⟩

def isText (text : String) (token : Token) : Bool :=
  token = .mark text || token.plainText? = some text

/-- Takes a mark or a reserved word. -/
def expect (text : String) : Parser Unit := do
  if isText text (← peek) then
    let _ ← take
  else unexpected (some text)

def accept (text : String) : Parser Bool := do
  if isText text (← peek) then
    let _ ← take
    return true
  return false

def skipNewlines : Nat → Parser Unit
  | 0 => return
  | limit + 1 => do
    if (← peek) = .newline then
      let _ ← take
      skipNewlines limit

def limit : Parser Nat :=
  return (← get).rest.length + 1

def newlines : Parser Unit := do
  skipNewlines (← limit)

/-- Takes the lines of a text that stands in the script after the current line. -/
def documentLines (delimiter : Octets) (strips : Bool) : Nat → Octets → Octets × Octets
  | 0, text => ([], text)
  | limit + 1, text =>
    if text.isEmpty then ([], [])
    else
      let line := text.takeWhile (· ≠ '\n')
      let after := text.drop (line.length + 1)
      let line := if strips then line.dropWhile (· = '\t') else line
      if line = delimiter then ([], after)
      else
        let (others, last) := documentLines delimiter strips limit after
        (line ++ '\n' :: others, last)

def document (strips : Bool) : Parser Word := do
  match ← take with
  | .word word =>
    let delimiter := word.flatMap fun
      | .plain text | .quoted text => text
      | _ => []
    let isQuoted := word.any fun
      | .quoted _ => true
      | _ => false
    let source ← get
    let line := source.rest.takeWhile (· ≠ '\n')
    let (body, after) := documentLines delimiter strips (source.rest.length + 1)
      (source.rest.drop (line.length + 1))
    set { source with rest := line ++ '\n' :: after : Source }
    if isQuoted then return [.quoted body]
    match quotedParts none (body.length + 1) body with
    | .ok (parts, _) => return parts
    | .error message => refuse message
  | _ => unexpected none

def redirection (descriptor : Option Nat) (operator : String) : Parser Redirection := do
  if operator = "<<" ∨ operator = "<<-" then
    return .document (descriptor.getD 0) (← document (operator = "<<-"))
  match ← peek with
  | .word target =>
    let _ ← take
    let input := descriptor.getD 0
    let output := descriptor.getD 1
    return match operator with
      | "<" | "<>" => .file input .read target
      | ">>" => .file output .append target
      | "<&" => .duplicate input target
      | ">&" => .duplicate output target
      | _ => .file output .write target
  | _ => unexpected none

def redirections : Nat → Parser (List Redirection)
  | 0 => return []
  | limit + 1 => do
    match ← peek with
    | .redirect descriptor operator =>
      let _ ← take
      let first ← redirection descriptor operator
      return first :: (← redirections limit)
    | _ => return []

/-- The name and the value of a word that assigns. -/
def assignment? (word : Word) : Option (String × Word) :=
  let plain := (word.takeWhile fun
    | .plain _ => true
    | _ => false)
  let text := plain.flatMap fun
    | .plain text => text
    | _ => []
  let name := text.takeWhile isNamePart
  if name.head?.any isNameStart ∧ (text.drop name.length).head? = some '=' then
    some (String.ofList name, word.drop (name.length + 1))
  else none

structure Simple where
  assignments : List (String × Word)
  words : List Word
  redirections : List Redirection

def simpleParts : Nat → Simple → Parser Simple
  | 0, parts => return parts
  | limit + 1, parts => do
    match ← peek with
    | .redirect descriptor operator =>
      let _ ← take
      let redirection ← redirection descriptor operator
      simpleParts limit { parts with redirections := parts.redirections ++ [redirection] }
    | .word word =>
      let _ ← take
      match parts.words, assignment? word with
      | [], some assignment =>
        simpleParts limit { parts with assignments := parts.assignments ++ [assignment] }
      | _, _ => simpleParts limit { parts with words := parts.words ++ [word] }
    | _ => return parts

/-- Commands with `&&` and `||` between pipelines. -/
def andOr (pipeline : Parser Node) : Nat → Node → Parser Node
  | 0, left => return left
  | limit + 1, left => do
    if ← accept "&&" then
      newlines
      andOr pipeline limit (.both left (← pipeline))
    else if ← accept "||" then
      newlines
      andOr pipeline limit (.either left (← pipeline))
    else return left

def pipes (command : Parser Node) : Nat → Parser (List Node)
  | 0 => return []
  | limit + 1 => do
    let first ← command
    if ← accept "|" then
      newlines
      return first :: (← pipes command limit)
    return [first]

def pipeline (command : Parser Node) : Parser Node := do
  let negated ← accept "!"
  let commands ← pipes command (← limit)
  let node := match commands with
    | [command] => command
    | commands => .pipeline commands
  return if negated then .negation node else node

/-- Whether a token ends a list of commands inside of another command. -/
def endsList (token : Token) : Bool :=
  token = .stop ||
    [")", ";;", "do", "done", "elif", "else", "esac", "fi", "then", "\x7d"].any (isText · token)

/-- The commands of a line, or else all commands up to a word that ends a list. -/
def commands (command : Parser Node) (isLine mayEnd : Bool) : Nat → Parser Node
  | 0 => return .empty
  | limit + 1 => do
    unless isLine do newlines
    let token ← peek
    if token = .stop || (isLine && token = .newline) || (mayEnd && !isLine && endsList token) then
      return .empty
    let first ← andOr (pipeline command) (← Parser.limit) (← pipeline command)
    if ← accept "&" then
      return .sequence (.background first) (← commands command isLine true limit)
    let separated ← accept ";"
    let token ← peek
    if separated || (!isLine && token = .newline) then
      return .sequence first (← commands command isLine true limit)
    if isLine && token ≠ .stop && token ≠ .newline then unexpected none
    return first

def block (command : Parser Node) : Parser Node := do
  commands command false false (← limit)

def conditional (command : Parser Node) : Nat → Parser Node
  | 0 => unexpected none
  | limit + 1 => do
    let test ← block command
    expect "then"
    let consequence ← block command
    if ← accept "elif" then
      return .conditional test consequence (← conditional command limit)
    if ← accept "else" then
      let alternative ← block command
      expect "fi"
      return .conditional test consequence alternative
    expect "fi"
    return .conditional test consequence .empty

def body (command : Parser Node) : Parser Node := do
  expect "do"
  let body ← block command
  expect "done"
  return body

def wordList : Nat → Parser (List Word)
  | 0 => return []
  | limit + 1 => do
    match ← peek with
    | .word word =>
      let _ ← take
      return word :: (← wordList limit)
    | _ => return []

def forEach (command : Parser Node) : Parser Node := do
  match (← take).plainText? with
  | none => refuse "Syntax error: Bad for loop variable"
  | some name =>
    newlines
    let words ← if ← accept "in" then some <$> wordList (← limit) else pure none
    let _ ← accept ";"
    newlines
    return .forEach name words (← body command)

def patterns : Nat → Parser (List Word)
  | 0 => return []
  | limit + 1 => do
    match ← take with
    | .word word =>
      if ← accept "|" then return word :: (← patterns limit)
      return [word]
    | _ => unexpected none

def branches (command : Parser Node) : Nat → Parser (List (List Word × Node))
  | 0 => unexpected (some "esac")
  | limit + 1 => do
    newlines
    if ← accept "esac" then return []
    let _ ← accept "("
    let patterns ← patterns (← Parser.limit)
    expect ")"
    let body ← commands command false true (← Parser.limit)
    let _ ← accept ";;"
    return (patterns, body) :: (← branches command limit)

def choice (command : Parser Node) : Parser Node := do
  match ← take with
  | .word word =>
    newlines
    expect "in"
    return .choice word (← branches command (← limit))
  | _ => unexpected none

/-- A command that is more than words, if one begins with the given text. -/
def compound? (command : Parser Node) (text : String) : Option (Parser Node) :=
  match text with
  | "if" => some do conditional command (← limit)
  | "while" => some do
    let test ← block command
    return .loop true test (← body command)
  | "until" => some do
    let test ← block command
    return .loop false test (← body command)
  | "for" => some (forEach command)
  | "case" => some (choice command)
  | "\x7b" => some do
    let body ← block command
    expect "\x7d"
    return body
  | "(" => some do
    let body ← block command
    expect ")"
    return .subshell body
  | _ => none

def redirected (node : Node) : Parser Node := do
  let redirections ← redirections (← limit)
  return if redirections.isEmpty then node else .redirected node redirections

def simple (command : Parser Node) : Parser Node := do
  let line := (← get).line
  let before ← peek
  let parts ← simpleParts (← limit) ⟨[], [], []⟩
  if parts.words.length = 1 ∧ parts.assignments.isEmpty ∧ parts.redirections.isEmpty ∧
      (← peek) = .mark "(" then
    let _ ← take
    expect ")"
    newlines
    return .function (before.plainText?.getD "") (← command)
  if parts.words.isEmpty ∧ parts.assignments.isEmpty ∧ parts.redirections.isEmpty then
    unexpected none
  return .simple line parts.assignments parts.words parts.redirections

/-- A command with at most so many levels of nesting. -/
def command : Nat → Parser Node
  | 0 => unexpected none
  | levels + 1 => do
    let token ← peek
    let text := match token with
      | .mark text => some text
      | token => token.plainText?
    match text.bind (compound? (command levels)) with
    | some parser =>
      let _ ← take
      redirected (← parser)
    | none =>
      match text with
      | some text =>
        if reservedWords.contains text && text ≠ "in" then unexpected none
        else simple (command levels)
      | none => simple (command levels)

/-- How deeply commands may be nested. -/
def deepestNesting : Nat := 100

/-- The commands of the next line that has any, unless the script is at its end. -/
def line? : Parser (Option Node) := do
  newlines
  if (← peek) = .stop then return none
  return some (← commands (command deepestNesting) true false (← limit))

end Parser

end CodeOutline.Shell
