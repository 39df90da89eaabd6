import CodeOutline.Text.CharClass

/-!
Masking of comments, literals and preprocessor lines. A masked character is replaced by as many
spaces as it has bytes, and line breaks stay, so that every offset of the masked text is an offset
of the text itself.
-/

namespace CodeOutline.Mask

/-- What the next character belongs to. -/
inductive Mode where
  /-- Program text; the flag says that only white space precedes on the line. -/
  | code (lineStart : Bool)
  | lineComment
  /-- The star of a comment's opening comes next. -/
  | commentOpening
  | blockComment
  /-- The slash of a comment's closing comes next. -/
  | commentClosing
  | literal (quote : Char)
  | escape (quote : Char)
  | directive
  /-- The line break after a backslash comes next. -/
  | continuation
  deriving DecidableEq, Repr

/-- The mode after a character and whether the character is kept, given the character that follows.
-/
def Mode.step (mode : Mode) (c : Char) (next : Option Char) : Mode × Bool :=
  match mode with
  | .code lineStart =>
    if c = '/' ∧ next = some '/' then (.lineComment, false)
    else if c = '/' ∧ next = some '*' then (.commentOpening, false)
    else if c = '"' ∨ c = '\'' ∨ c = '\x60' then (.literal c, true)
    else if c = '#' ∧ lineStart then (.directive, false)
    else (.code (c = '\n' || (CharClass.isSpace c && lineStart)), true)
  | .lineComment => if c = '\n' then (.code true, false) else (.lineComment, false)
  | .commentOpening => (.blockComment, false)
  | .blockComment =>
    if c = '*' ∧ next = some '/' then (.commentClosing, false) else (.blockComment, false)
  | .commentClosing => (.code false, false)
  | .literal quote =>
    if c = quote then (.code false, true)
    else if c = '\\' then (.escape quote, false)
    else if c = '\n' ∧ quote ≠ '\x60' then (.code true, true)
    else (.literal quote, false)
  | .escape quote => (.literal quote, false)
  | .directive =>
    if c = '\\' ∧ next = some '\n' then (.continuation, false)
    else if c = '\n' then (.code true, false)
    else (.directive, false)
  | .continuation => (.directive, false)

def blank (c : Char) : List Char :=
  if c = '\n' then ['\n'] else List.replicate c.utf8Size ' '

/-- Masks the characters from a given mode on. -/
def runFrom (mode : Mode) : List Char → List Char
  | [] => []
  | c :: rest =>
    let (next, kept) := mode.step c rest.head?
    (if kept then [c] else blank c) ++ runFrom next rest

/-- The mode in which a text ends. -/
def modeAfter (mode : Mode) : List Char → Mode
  | [] => mode
  | c :: rest => modeAfter (mode.step c rest.head?).1 rest

def chars (text : List Char) : List Char :=
  runFrom (.code true) text

end CodeOutline.Mask
