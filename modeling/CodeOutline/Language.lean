import CodeOutline.Text.Scan

namespace CodeOutline

inductive Language where
  | c
  | javaScript
  deriving DecidableEq, Repr

namespace Language

def all : List Language := [.c, .javaScript]

def name : Language → String
  | .c => "C"
  | .javaScript => "JavaScript"

def id : Language → String
  | .c => "c"
  | .javaScript => "javascript"

/-- The name of the file that holds a program while it is run. -/
def sourceFile : Language → String
  | .c => "main.c"
  | .javaScript => "main.js"

def command : Language → String
  | .c => "gcc"
  | .javaScript => "node"

def installHint : Language → String
  | .c => "Install gcc: apt install build-essential (or xcode-select --install on macOS)"
  | .javaScript => "Install Node.js: https://nodejs.org/en/download"

/-- A name in lower case. No letter of a language's name is the lower case of a letter outside
ASCII. -/
def folded (text : String) : String :=
  String.ofList (text.toList.map Char.toLower)

def ofName? (text : String) : Option Language :=
  if folded text = "c" then some .c
  else if folded text = "javascript" ∨ folded text = "js" then some .javaScript
  else none

def ofExtension? (text : String) : Option Language :=
  if folded text = "c" ∨ folded text = "h" then some .c
  else if folded text = "js" ∨ folded text = "mjs" then some .javaScript
  else none

/-- The last name on a path. A path that ends with the current or the parent directory has none. -/
def fileName? (path : String) : Option (List Char) :=
  let parts := (Text.pieces (· = '/') path.toList).zipIdx.filter fun (part, index) =>
    !part.isEmpty && (part ≠ ['.'] || index = 0)
  match parts.getLast? with
  | some (name, _) => if name = ['.'] ∨ name = ['.', '.'] then none else some name
  | none => none

/-- What follows the last dot of the last name on a path. A dot that begins the name does not
count. -/
def extension? (path : String) : Option String :=
  (fileName? path).bind fun name =>
    let extension := (name.reverse.takeWhile (· ≠ '.')).reverse
    if extension.length + 1 < name.length then some (String.ofList extension) else none

def ofPath? (path : String) : Option Language :=
  (extension? path).bind ofExtension?

end Language

end CodeOutline
