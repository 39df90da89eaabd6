import CodeOutline.Shell.Node

namespace CodeOutline.Shell

/-- What a script is refused for, with the line. -/
structure ScriptError where
  line : Nat
  message : String
  deriving DecidableEq, Repr

/-- The text that is left of a script and the line it begins on. -/
structure Source where
  rest : Octets
  line : Nat
  deriving Inhabited

def Source.goTo (source : Source) (rest : Octets) : Source :=
  let passed := source.rest.take (source.rest.length - rest.length)
  ⟨rest, source.line + passed.count '\n'⟩

def isNameStart (c : Char) : Bool :=
  c.isAlpha || c = '_'

def isNamePart (c : Char) : Bool :=
  c.isAlphanum || c = '_'

/-- Characters that name a parameter of their own. -/
def isSpecialName (c : Char) : Bool :=
  c.isDigit || ['@', '*', '#', '?', '-', '$', '!'].contains c

/-- What stands up to the closing mark, with quotes and nested marks passed over, and the rest. -/
def enclosed (opening closing : Char) (quotes : Bool) (depth : Nat) (inside : Option Char) :
    Octets → Option (Octets × Octets)
  | [] => none
  | [c] => if inside.isNone && depth = 0 && c = closing then some ([], []) else none
  | c :: d :: rest =>
    let goOn (depth : Nat) (inside : Option Char) : Option (Octets × Octets) :=
      (enclosed opening closing quotes depth inside (d :: rest)).map fun (text, after) =>
        (c :: text, after)
    match inside with
    | some quote =>
      if c = '\\' && quote = '"' then
        (enclosed opening closing quotes depth inside rest).map fun (text, after) =>
          (c :: d :: text, after)
      else goOn depth (if c = quote then none else inside)
    | none =>
      if c = '\\' then
        (enclosed opening closing quotes depth none rest).map fun (text, after) =>
          (c :: d :: text, after)
      else if c = '"' || (quotes && c = '\'') then goOn depth (some c)
      else if c = closing then
        if depth = 0 then some ([], d :: rest) else goOn (depth - 1) none
      else if c = opening then goOn (depth + 1) none
      else goOn depth none

/-- The command in backquotes, in which a backslash quotes backquotes, dollars and backslashes. -/
def backquoted : Octets → Option (Octets × Octets)
  | [] => none
  | [c] => if c = '\x60' then some ([], []) else none
  | c :: d :: rest =>
    if c = '\x60' then some ([], d :: rest)
    else if c = '\\' && ['\x60', '$', '\\'].contains d then
      (backquoted rest).map fun (text, after) => (d :: text, after)
    else (backquoted (d :: rest)).map fun (text, after) => (c :: text, after)

def changeOperators : List String :=
  [":-", ":=", ":+", ":?", "%%", "##", "-", "=", "+", "?", "%", "#"]

/-- The parameter that stands in braces. -/
def bracedParameter? (quoted : Bool) (text : Octets) : Option Part :=
  let nameLength (text : Octets) : Nat :=
    match text with
    | [] => 0
    | c :: _ =>
      if isNameStart c then (text.takeWhile isNamePart).length
      else if c.isDigit then (text.takeWhile Char.isDigit).length
      else if isSpecialName c then 1 else 0
  match text with
  | '#' :: c :: rest =>
    if nameLength (c :: rest) = rest.length + 1 then
      some (.parameter quoted (String.ofList (c :: rest)) (some ⟨"length", []⟩))
    else change? nameLength
  | _ => change? nameLength
where
  change? (nameLength : Octets → Nat) : Option Part :=
    let name := String.ofList (text.take (nameLength text))
    let rest := text.drop (nameLength text)
    if name.isEmpty then none
    else if rest.isEmpty then some (.parameter quoted name none)
    else
      changeOperators.findSome? fun operator =>
        (Text.strip? operator.toList rest).map fun word =>
          .parameter quoted name (some ⟨operator, word⟩)

/-- What a dollar begins, with the rest. A dollar that begins nothing stands for itself. -/
def expansion (quoted : Bool) (rest : Octets) : Except String (Part × Octets) :=
  let literal : Part := if quoted then .quoted ['$'] else .plain ['$']
  match rest with
  | [] => .ok (literal, [])
  | c :: after =>
    if c = '\x7b' then
      match enclosed '\x7b' '\x7d' (!quoted) 0 none after with
      | none => .error "Syntax error: Missing '\x7d'"
      | some (text, rest) =>
        match bracedParameter? quoted text with
        | some part => .ok (part, rest)
        | none => .error "Bad substitution"
    else if c = '(' then
      match enclosed '(' ')' true 0 none after with
      | none => .error "Syntax error: end of file unexpected (expecting \")\")"
      | some (text, rest) =>
        match text with
        | '(' :: inner =>
          if inner.getLast? = some ')' then .ok (.arithmetic quoted inner.dropLast, rest)
          else .ok (.command quoted text, rest)
        | _ => .ok (.command quoted text, rest)
    else if isNameStart c then
      .ok (.parameter quoted (String.ofList (rest.takeWhile isNamePart)) none,
        rest.dropWhile isNamePart)
    else if isSpecialName c then .ok (.parameter quoted (String.ofList [c]) none, after)
    else .ok (literal, rest)

/-- The parts of a text in which only dollars, backquotes and backslashes are special, up to the
closing mark if there is one. -/
def quotedParts (closing : Option Char) : Nat → Octets → Except String (Word × Octets)
  | 0, _ => .error "Syntax error: Unterminated quoted string"
  | limit + 1, text =>
    match text with
    | [] =>
      if closing.isNone then .ok ([], []) else .error "Syntax error: Unterminated quoted string"
    | c :: rest => do
      if some c = closing then return ([], rest)
      if c = '\\' then
        match rest with
        | [] => return ([.quoted ['\\']], [])
        | d :: after =>
          let (parts, last) ← quotedParts closing limit after
          if d = '\n' then return (parts, last)
          if ['$', '\x60', '\\'].contains d || some d = closing then
            return (.quoted [d] :: parts, last)
          return (.quoted [c, d] :: parts, last)
      if c = '$' then
        let (part, after) ← expansion true rest
        let (parts, last) ← quotedParts closing limit after
        return (part :: parts, last)
      if c = '\x60' then
        match backquoted rest with
        | none => throw "Syntax error: EOF in backquote substitution"
        | some (script, after) =>
          let (parts, last) ← quotedParts closing limit after
          return (.command true script :: parts, last)
      let (parts, last) ← quotedParts closing limit rest
      return (.quoted [c] :: parts, last)

def isMeta (c : Char) : Bool :=
  [' ', '\t', '\n', ';', '&', '|', '<', '>', '(', ')'].contains c

/-- The parts of a word up to a character that ends it. -/
def wordParts (ends : Char → Bool) : Nat → Octets → Except String (Word × Octets)
  | 0, text => .ok ([], text)
  | limit + 1, text =>
    match text with
    | [] => .ok ([], [])
    | c :: rest => do
      if ends c then return ([], text)
      let (parts, after) ←
        if c = '\'' then
          match rest.dropWhile (· ≠ '\'') with
          | [] => throw "Syntax error: Unterminated quoted string"
          | _ :: after => pure ([.quoted (rest.takeWhile (· ≠ '\''))], after)
        else if c = '"' then do
          let (parts, after) ← quotedParts (some '"') (rest.length + 1) rest
          let isList : Bool := match parts with
            | [.parameter _ name none] => name = "@"
            | _ => false
          pure (if isList then parts else .quoted [] :: parts, after)
        else if c = '\\' then
          match rest with
          | [] => pure ([.plain ['\\']], [])
          | d :: after => pure (if d = '\n' then [] else [.quoted [d]], after)
        else if c = '$' then do
          let (part, after) ← expansion false rest
          pure ([part], after)
        else if c = '\x60' then
          match backquoted rest with
          | none => throw "Syntax error: EOF in backquote substitution"
          | some (script, after) => pure ([.command false script], after)
        else pure ([.plain [c]], rest)
      let (others, last) ← wordParts ends limit after
      return (parts ++ others, last)

inductive Token where
  | stop
  | newline
  | mark (text : String)
  | redirect (descriptor : Option Nat) (operator : String)
  | word (word : Word)
  deriving DecidableEq, Repr

namespace Token

/-- The text of a word without quotes or expansions. -/
def plainText? : Token → Option String
  | .word parts =>
    let texts := parts.mapM fun part =>
      match part with
      | .plain text => some text
      | _ => none
    texts.map fun texts => String.ofList texts.flatten
  | _ => none

def marks : List String := ["&&", "||", ";;", ";", "&", "|", "(", ")"]

def redirectMarks : List String := ["<<-", "<<", "<&", "<>", "<", ">>", ">&", ">|", ">"]

/-- Passes over blanks, comments and line breaks that a backslash hides. -/
def skipGaps : Nat → Octets → Octets
  | 0, text => text
  | limit + 1, text =>
    match text with
    | ' ' :: rest | '\t' :: rest => skipGaps limit rest
    | '\\' :: '\n' :: rest => skipGaps limit rest
    | '#' :: rest => rest.dropWhile (· ≠ '\n')
    | _ => text

/-- The number of a descriptor that stands right before a redirection. -/
def descriptor? (text : Octets) : Option (Nat × Octets) :=
  let rest := text.dropWhile Char.isDigit
  match rest with
  | c :: _ =>
    if c = '<' ∨ c = '>' then
      (Text.decimal? 256 (text.takeWhile Char.isDigit)).map (·, rest)
    else none
  | [] => none

def read (source : Source) : Except ScriptError (Token × Source) :=
  let source := source.goTo (skipGaps source.rest.length source.rest)
  let redirect (descriptor : Option Nat) (text : Octets) : Option (Token × Source) :=
    redirectMarks.findSome? fun mark =>
      (Text.strip? mark.toList text).map fun rest => (.redirect descriptor mark, source.goTo rest)
  match source.rest with
  | [] => .ok (.stop, source)
  | '\n' :: rest => .ok (.newline, source.goTo rest)
  | text =>
    let found := ((descriptor? text).bind fun (number, rest) => redirect (some number) rest).or
      (redirect none text)
    match found with
    | some result => .ok result
    | none =>
      let mark := marks.findSome? fun mark =>
        (Text.strip? mark.toList text).map fun rest => (Token.mark mark, source.goTo rest)
      match mark with
      | some result => .ok result
      | none =>
        match wordParts isMeta (text.length + 1) text with
        | .ok (parts, rest) => .ok (.word parts, source.goTo rest)
        | .error message => .error ⟨source.line + text.count '\n', message⟩

end Token

end CodeOutline.Shell
