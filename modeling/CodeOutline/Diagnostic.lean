import CodeOutline.Text.Scan

namespace CodeOutline

structure Diagnostic where
  line : Nat
  message : String
  deriving DecidableEq, Repr, Inhabited

namespace Diagnostic

def general (message : String) : Diagnostic := ⟨0, message⟩

/-- Whether the message is more than a warning about a line. -/
def isError (diagnostic : Diagnostic) : Bool :=
  diagnostic.line = 0 || !"warning:".toList.isPrefixOf diagnostic.message.toList

end Diagnostic

namespace CompilerMessage

def severities : List String := ["fatal error", "error", "warning"]

/-- The severity that the text begins with and what follows it. -/
def severity? (text : List Char) : Option (String × List Char) :=
  severities.findSome? fun severity =>
    (Text.strip? (severity.toList ++ [':']) text).map (severity, ·)

/-- The message after a severity: it begins at the first character that is not white space, be it
on a later line, and ends with its line. If only white space is left, its last character that is no
line break is the message. Also gives what is left. -/
def body? (text : List Char) : Option (List Char × List Char) :=
  (Text.run? CharClass.isSpace text).bind fun (spaces, rest) =>
    match Text.lineText? rest with
    | some message =>
      let after := rest.drop message.length
      some (message, after.drop (Text.lineEnd after))
    | none =>
      match spaces.tail.reverse.dropWhile Text.isLineBreak with
      | [] => none
      | last :: _ => some ([last], [])

/-- The message that starts at the beginning of a line, with what is left after it. A line number
that is not written in ASCII digits or is too large gives no message, but its text is taken. -/
def read? (text : List Char) : Option (Option Diagnostic × List Char) := do
  let (_, text) ← Text.run? (fun c => c ≠ ':' ∧ c ≠ '\n') text
  let text ← Text.strip? [':'] text
  let (line, text) ← Text.run? CharClass.isDecimal text
  let text ← Text.strip? [':'] text
  let (_, text) ← Text.run? CharClass.isDecimal text
  let text ← Text.strip? [':'] text
  let (_, text) ← Text.run? CharClass.isSpace text
  let (severity, text) ← severity? text
  let (message, text) ← body? text
  some ((Text.decimal? UInt64.size line).map (⟨·, severity ++ ": " ++ String.ofList message⟩), text)

/-- The messages of a text. `skipped` characters belong to the message read last, and a message can
only start at the start of a line. -/
def scan (skipped : Nat) (lineStart : Bool) : List Char → List Diagnostic
  | [] => []
  | c :: rest =>
    let next := Text.isLineBreak c
    match skipped with
    | skipped + 1 => scan skipped next rest
    | 0 =>
      if lineStart then
        match read? (c :: rest) with
        | some (diagnostic, after) =>
          diagnostic.toList ++ scan (rest.length - after.length) next rest
        | none => scan 0 next rest
      else scan 0 next rest

/-- The messages that a compiler wrote to its error stream. -/
def parse (report : String) : List Diagnostic :=
  scan 0 true report.toList

/-- What is reported of a failed step: the messages in the error stream, or else all of it. -/
def ofFailure (report : String) : List Diagnostic :=
  match parse report with
  | [] => [.general (Text.trim report)]
  | messages => messages

end CompilerMessage

namespace RuntimeReport

/-- The word of digits after the first place that names the script with a line number. -/
def lineDigits? : List Char → Option (List Char)
  | [] => none
  | c :: rest =>
    match (Text.strip? "main.js:".toList (c :: rest)).bind (Text.run? CharClass.isDecimal) with
    | some (digits, _) => some digits
    | none => lineDigits? rest

/-- Whether a word may name an error: it is `Error`, or it begins with a capital and ends so. -/
def namesError (word : List Char) : Bool :=
  word = "Error".toList ||
    ("Error".toList.isSuffixOf word && 5 < word.length && word.head?.any Char.isUpper)

/-- A code in brackets after the name of an error. -/
def code? (text : List Char) : Option (List Char) := do
  let text ← Text.strip? [' ', '['] text
  let (_, text) ← Text.run? CharClass.isWord text
  Text.strip? [']'] text

/-- The line of an error at the start of the text: its name, maybe a code, and its message. -/
def message? (text : List Char) : Option String := do
  let (name, rest) ← Text.run? CharClass.isWord text
  if namesError name then
    let rest ← Text.strip? [':', ' '] ((code? rest).getD rest)
    let message ← Text.lineText? rest
    some (String.ofList (text.take (text.length - rest.length) ++ message))
  else none

def firstMessage? (lineStart : Bool) : List Char → Option String
  | [] => none
  | c :: rest =>
    if lineStart then (message? (c :: rest)).or (firstMessage? (Text.isLineBreak c) rest)
    else firstMessage? (Text.isLineBreak c) rest

/-- The report as one message; text that has no message in it stands for itself. -/
def parse (report : String) : Diagnostic :=
  let line := (lineDigits? report.toList).bind (Text.decimal? UInt64.size)
  match line, firstMessage? true report.toList with
  | some line, some message => ⟨line, message⟩
  | none, some message => .general message
  | _, none => .general (Text.trim report)

end RuntimeReport

end CodeOutline
