import CodeOutline.Grammar.Rule

namespace CodeOutline.Script

inductive Terminal where
  | stop
  /-- A keyword or a mark. -/
  | literal (text : String)
  | identifier
  | privateName
  | number
  | comment
  /-- The line that names an interpreter, at the very beginning of a script. -/
  | interpreterLine
  /-- What is written between double or between single quotes, without escapes. -/
  | doubleFragment
  | singleFragment
  | escape
  | regexPattern
  | regexEnd
  | regexFlags
  /-- A name with a hyphen in it. -/
  | markupName
  /-- What is written between quotes in markup, without references to characters. -/
  | doubleMarkupFragment
  | singleMarkupFragment
  | characterReference
  /-- The words that make a static reader of a property, up to a line break. -/
  | staticGetter
  /-- A semicolon that is not written. -/
  | semicolon
  | templateText
  /-- The question mark of a conditional expression. -/
  | questionMark
  | markupComment
  | markupText
  deriving DecidableEq, Repr

namespace Terminal

/-- Literals that are nodes with a name. -/
def namedLiterals : List String :=
  ["this", "super", "true", "false", "null", "undefined"]

/-- What a token is called in a tree. -/
def kind : Terminal → String
  | stop => "end"
  | literal text => if text = "?." then "optional_chain" else text
  | identifier => "identifier"
  | privateName => "private_property_identifier"
  | number => "number"
  | comment => "comment"
  | interpreterLine => "hash_bang_line"
  | doubleFragment => "unescaped_double_string_fragment"
  | singleFragment => "unescaped_single_string_fragment"
  | escape => "escape_sequence"
  | regexPattern => "regex_pattern"
  | regexEnd => "/"
  | regexFlags => "regex_flags"
  | markupName => "jsx_identifier"
  | doubleMarkupFragment => "unescaped_double_jsx_string_fragment"
  | singleMarkupFragment => "unescaped_single_jsx_string_fragment"
  | characterReference => "html_character_reference"
  | staticGetter => "static get"
  | semicolon => "_automatic_semicolon"
  | templateText => "_template_chars"
  | questionMark => "_ternary_qmark"
  | markupComment => "html_comment"
  | markupText => "jsx_text"

/-- Whether a token is a named node of a tree. -/
def isNamed : Terminal → Bool
  | literal text => text = "?." || namedLiterals.contains text
  | stop | regexEnd | staticGetter | semicolon | templateText | questionMark => false
  | _ => true

/-- Whether a token is a node of a tree. -/
def isSeen : Terminal → Bool
  | stop | semicolon | templateText | questionMark => false
  | _ => true

end Terminal

end CodeOutline.Script

namespace CodeOutline.Script

abbrev Construct := Rule Terminal

instance : Coe String Construct := ⟨fun text => .token (.literal text)⟩

/-- Rules by name, in the order in which they are numbered. -/
abbrev Rules := List (String × Construct)

def the (name : String) : Construct :=
  .named name

/-- What the rule makes, in a field of the node around it. -/
def part (field name : String) : Construct :=
  .field field (.named name)

def identifier : Construct :=
  .token .identifier

def privateName : Construct :=
  .token .privateName

def implied : Construct :=
  .token .semicolon

/-- One or more of the construct, with commas in between. -/
def list1 (construct : Construct) : Construct :=
  .separated "," construct

/-- As many of the construct as there are, with commas in between. -/
def list (construct : Construct) : Construct :=
  .optional (list1 construct)

/-- A construct between braces. -/
def braced (constructs : List Construct) : Construct :=
  .seq ([.token (.literal "\x7b")] ++ constructs ++ [.token (.literal "\x7d")])

/-- What has the given name, be it a word with a meaning of its own in other places. -/
def named (kind : String) : Construct :=
  .as kind (.choice [identifier, the "_reserved_identifier"])

end CodeOutline.Script
