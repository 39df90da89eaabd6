import CodeOutline.Text.Utf8

namespace CodeOutline.Shell

export Text (Octets)

/-- What is done to the value of a parameter, by an operator and a word. -/
structure Change where
  operator : String
  word : Octets
  deriving DecidableEq, Repr

inductive Part where
  | plain (text : Octets)
  | quoted (text : Octets)
  | parameter (quoted : Bool) (name : String) (change : Option Change)
  /-- The output of a command. -/
  | command (quoted : Bool) (script : Octets)
  | arithmetic (quoted : Bool) (expression : Octets)
  deriving DecidableEq, Repr

abbrev Word := List Part

inductive OpenMode where
  | read
  | write
  | append
  deriving DecidableEq, Repr

inductive Redirection where
  | file (descriptor : Nat) (mode : OpenMode) (target : Word)
  | duplicate (descriptor : Nat) (target : Word)
  /-- A text that stands in the script itself. -/
  | document (descriptor : Nat) (body : Word)
  deriving DecidableEq, Repr

inductive Node where
  | empty
  | simple (line : Nat) (assignments : List (String × Word)) (words : List Word)
      (redirections : List Redirection)
  | pipeline (commands : List Node)
  | both (left right : Node)
  | either (left right : Node)
  | negation (command : Node)
  | sequence (first second : Node)
  | background (command : Node)
  | redirected (command : Node) (redirections : List Redirection)
  | subshell (body : Node)
  | conditional (test consequence alternative : Node)
  /-- Runs the body as long as the test does not give the wanted result. -/
  | loop (wanted : Bool) (test body : Node)
  | forEach (name : String) (words : Option (List Word)) (body : Node)
  | choice (word : Word) (branches : List (List Word × Node))
  | function (name : String) (body : Node)
  deriving Repr, Inhabited

end CodeOutline.Shell
