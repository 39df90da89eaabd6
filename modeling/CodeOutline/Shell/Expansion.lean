import CodeOutline.Shell.Arithmetic
import CodeOutline.Shell.Node
import CodeOutline.Shell.State

namespace CodeOutline.Shell

/-- A character of a pattern and whether it was quoted. -/
abbrev PatternChar := Char × Bool

/-- Whether a character is in a set, in which a hyphen stands for a range. -/
def inSet (c : Char) : List Char → Bool
  | low :: '-' :: high :: rest => (low ≤ c && c ≤ high) || inSet c rest
  | d :: rest => c = d || inSet c rest
  | [] => false

/-- The set in brackets and what follows it. -/
def bracketSet? (pattern : List PatternChar) : Option (Bool × List Char × List PatternChar) :=
  let (negated, rest) := match pattern with
    | ('!', false) :: rest => (true, rest)
    | rest => (false, rest)
  let (first, rest) := (rest.take 1, rest.drop 1)
  let others := rest.takeWhile (·.1 ≠ ']')
  match rest.drop others.length with
  | [] => none
  | _ :: after => some (negated, (first ++ others).map Prod.fst, after)

/-- The ends of a text, the longest first. -/
def suffixes : Octets → List Octets
  | [] => [[]]
  | c :: rest => (c :: rest) :: suffixes rest

/-- Whether a pattern matches a whole text. -/
def matchesPattern : Nat → List PatternChar → Octets → Bool
  | 0, _, _ => false
  | _, [], text => text.isEmpty
  | limit + 1, (c, isQuoted) :: pattern, text =>
    let literally : Bool :=
      match text with
      | d :: rest => c = d && matchesPattern limit pattern rest
      | [] => false
    if isQuoted then literally
    else if c = '*' then (suffixes text).any (matchesPattern limit pattern)
    else if c = '?' then !text.isEmpty && matchesPattern limit pattern text.tail
    else if c = '[' then
      match bracketSet? pattern, text with
      | some (negated, set, after), d :: rest =>
        (inSet d set != negated) && matchesPattern limit after rest
      | some _, [] => false
      | none, _ => literally
    else literally

def patternMatches (pattern : List PatternChar) (text : Octets) : Bool :=
  matchesPattern (pattern.length + 1) pattern text

/-- Whether anything in a pattern is special. -/
def isPattern (pattern : List PatternChar) : Bool :=
  pattern.any fun (c, isQuoted) => !isQuoted && (c = '*' || c = '?' || c = '[')

end CodeOutline.Shell

namespace CodeOutline.Shell.Expansion

/-- A piece of an expanded word, or a place where one field ends and the next begins. -/
inductive Piece where
  | text (text : Octets) (quoted splits : Bool)
  | gap
  deriving Repr

/-- The number by which the shell knows itself. -/
def processNumber : Octets := "4242".toList

/-- The number by which the shell knows a command in the background. -/
def backgroundNumber : Octets := "4243".toList

/-- The value of a parameter that stands for a single text. -/
def value? (name : String) : Run (Option Octets) := do
  let state ← get
  match name with
  | "#" => return some (toString state.arguments.length).toList
  | "?" => return some (toString state.status).toList
  | "$" => return some processNumber
  | "-" => return some []
  | "!" => return state.backgroundStatus.map fun _ => backgroundNumber
  | "0" => return some state.name
  | "@" | "*" =>
    return if state.arguments.isEmpty then none
      else some (List.intercalate [' '] state.arguments)
  | _ =>
    if name.toList.head?.any Char.isDigit then
      let index := Text.natOfDigits 10 name.toList
      return state.arguments[index - 1]?
    return state.bindings.lookup name

/-- Takes away the shortest or longest part at the front that a pattern matches. -/
def dropFront (longest : Bool) (pattern : List PatternChar) (text : Octets) : Octets :=
  let lengths := List.range (text.length + 1)
  let lengths := if longest then lengths.reverse else lengths
  match lengths.find? fun length => patternMatches pattern (text.take length) with
  | some length => text.drop length
  | none => text

def dropBack (longest : Bool) (pattern : List PatternChar) (text : Octets) : Octets :=
  let lengths := List.range (text.length + 1)
  let lengths := if longest then lengths else lengths.reverse
  match lengths.find? fun length => patternMatches pattern (text.drop length) with
  | some length => text.take length
  | none => text

/-- The pieces of the arguments, each of which is a field of its own. -/
def argumentPieces (quoted : Bool) : List Octets → List Piece
  | [] => []
  | [argument] => [.text argument quoted (!quoted)]
  | argument :: others => .text argument quoted (!quoted) :: .gap :: argumentPieces quoted others

/-- Reads a word that stands inside of an expansion. -/
def wordOf (quoted : Bool) (text : Octets) : Except String Word :=
  if quoted then (quotedParts none (text.length + 1) text).map Prod.fst
  else (wordParts (fun _ => false) (text.length + 1) text).map Prod.fst

/-- The text of pieces, in which fields are joined by blanks. -/
def joined : List Piece → Octets
  | [] => []
  | .text text _ _ :: others => text ++ joined others
  | .gap :: others => ' ' :: joined others

/-- The text of pieces, each character with whether it is quoted. -/
def marked : List Piece → List PatternChar
  | [] => []
  | .text text quoted _ :: others => text.map (·, quoted) ++ marked others
  | .gap :: others => (' ', false) :: marked others

variable (runScript : Octets → Run Unit)

/-- The output of a script without the line breaks at its end. -/
def output (script : Octets) : Run Octets := do
  let text ← Run.collect (runScript script)
  return (text.reverse.dropWhile (· = '\n')).reverse

mutual

/-- The pieces of a word. -/
def pieces : Nat → Word → Run (List Piece)
  | 0, _ => return []
  | _, [] => return []
  | limit + 1, part :: parts => do
    let first ← match part with
      | .plain text => pure [.text text false false]
      | .quoted text => pure [.text text true false]
      | .command quoted script => do
        pure [.text (← output runScript script) quoted (!quoted)]
      | .arithmetic quoted expression => do
        pure [.text (← arithmetic limit expression) quoted (!quoted)]
      | .parameter quoted name change => parameter limit quoted name change
    return first ++ (← pieces limit parts)

def parameter : Nat → Bool → String → Option Change → Run (List Piece)
  | 0, _, _, _ => return []
  | limit + 1, quoted, name, change => do
    let found ← value? name
    let as (text : Octets) : List Piece := [.text text quoted (!quoted)]
    match change with
    | none =>
      if name = "@" || (name = "*" && !quoted) then
        return argumentPieces quoted (← get).arguments
      return as (found.getD [])
    | some change =>
      let isThere : Bool := match change.operator.toList with
        | ':' :: _ => found.any (!·.isEmpty)
        | _ => found.isSome
      let other : Run (List Piece) := do
        match wordOf quoted change.word with
        | .ok word => pieces limit word
        | .error message => Run.abort message
      match change.operator with
      | "length" => return as (toString (found.getD []).length).toList
      | "-" | ":-" => if isThere then return as (found.getD []) else other
      | "+" | ":+" => if isThere then other else return []
      | "=" | ":=" =>
        if isThere then return as (found.getD [])
        let text := joined (← other)
        Run.assign name text
        return as text
      | "?" | ":?" =>
        if isThere then return as (found.getD [])
        let text := joined (← other)
        Run.abort (name ++ ": " ++
          (if text.isEmpty then "parameter not set" else String.ofList text))
      | operator =>
        let pattern := marked (← match wordOf false change.word with
          | .ok word => pieces limit word
          | .error message => Run.abort message)
        let text := found.getD []
        return as (match operator with
          | "#" => dropFront false pattern text
          | "##" => dropFront true pattern text
          | "%" => dropBack false pattern text
          | _ => dropBack true pattern text)

def arithmetic : Nat → Octets → Run Octets
  | 0, _ => return []
  | limit + 1, expression => do
    let word ← match quotedParts none (expression.length + 1) expression with
      | .ok (word, _) => pure word
      | .error message => Run.abort message
    let text := joined (← pieces limit word)
    match Arithmetic.evaluate text (← get).bindings with
    | .ok (value, bindings) =>
      modify fun state => { state with bindings := bindings }
      return (toString value).toList
    | .error .divisionByZero =>
      Run.abort ("arithmetic expression: division by zero: \"" ++ String.ofList text ++ "\"")
    | .error .malformed =>
      Run.abort ("arithmetic expression: expecting primary: \"" ++ String.ofList text ++ "\"")

end

/-- Splits a text at the separators. Blanks count as one separator with what is between them. -/
def split (separators : Octets) (done : List (List PatternChar))
    (current : Option (List PatternChar)) :
    Octets → List (List PatternChar) × Option (List PatternChar)
  | [] => (done, current)
  | c :: rest =>
    if separators.contains c then
      match current with
      | some field => split separators (done ++ [field]) none rest
      | none =>
        if [' ', '\t', '\n'].contains c then split separators done none rest
        else split separators (done ++ [[]]) none rest
    else split separators done (some (current.getD [] ++ [(c, false)])) rest

/-- The fields that pieces make. -/
def fields (separators : Octets) (done : List (List PatternChar))
    (current : Option (List PatternChar)) : List Piece → List (List PatternChar)
  | [] => done ++ current.toList
  | .gap :: others => fields separators (done ++ current.toList) none others
  | .text text quoted splits :: others =>
    if splits then
      let (done, current) := split separators done current text
      fields separators done current others
    else if text.isEmpty && !quoted then fields separators done current others
    else fields separators done (some (current.getD [] ++ text.map (·, quoted))) others

/-- The names that a field stands for if it is a pattern that matches any. -/
def names (world : World) (field : List PatternChar) : List Octets :=
  let text := field.map Prod.fst
  if isPattern field then
    let found := world.names.filter fun name =>
      patternMatches field name.toList && (name.toList.head? ≠ some '.' || text.head? = some '.')
    if found.isEmpty then [text] else found.map String.toList
  else [text]

/-- How deeply expansions may be nested. -/
def deepestNesting : Nat := 400

/-- The fields of a word. -/
def expand (word : Word) : Run (List Octets) := do
  let pieces ← pieces runScript (word.length + deepestNesting) word
  let state ← get
  let separators := (state.bindings.lookup "IFS").getD [' ', '\t', '\n']
  return (fields separators [] none pieces).flatMap (names state.world)

def expandAll (words : List Word) : Run (List Octets) := do
  return (← words.mapM (expand runScript)).flatten

/-- The text of a word that is not split. -/
def expandText (word : Word) : Run Octets := do
  return joined (← pieces runScript (word.length + deepestNesting) word)

/-- The pattern of a word. -/
def expandPattern (word : Word) : Run (List PatternChar) := do
  return marked (← pieces runScript (word.length + deepestNesting) word)

end CodeOutline.Shell.Expansion
