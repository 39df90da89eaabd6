import CodeOutline.Delimiter.Boundary
import CodeOutline.Delimiter.Split
import CodeOutline.Shape.Declarator
import CodeOutline.Text.Location

namespace CodeOutline

structure Declaration where
  start : Nat
  declaredType : String
  name : String
  nameOffset : Nat
  /-- What stands between the equals sign and the semicolon. -/
  initializer : Option Slice
  /-- Where the semicolon stands. -/
  stop : Nat
  deriving DecidableEq, Repr

namespace Declaration

def ofDeclarator (declarator : Declarator) (initializer : Option Slice) (stop : Nat) :
    Declaration where
  start := declarator.typeWords.start
  declaredType := Text.trim declarator.typeWords.text
  name := declarator.name.text
  nameOffset := declarator.name.start
  initializer := initializer
  stop := stop

/-- The declaration that the slice begins with. -/
def read? (slice : Slice) : Option Declaration :=
  (Declarator.read? slice).bind fun declarator =>
    let rest := declarator.rest
    let after := rest.fromOffset (Declarator.suffixEnd false none rest.start rest.cells)
    if after.startsWith '=' then
      let value := after.drop 1
      (value.find? 0x3B).map fun stop =>
        ofDeclarator declarator (some (value.toOffset stop)) stop
    else if after.startsWith ';' then some (ofDeclarator declarator none after.start)
    else none

end Declaration

end CodeOutline

namespace CodeOutline

structure Parameter where
  name : String
  declaredType : String
  offset : Nat
  deriving DecidableEq, Repr

namespace Parameter

/-- The first word that only white space and array suffixes follow. -/
def name? (position : Nat) : List Cell → Option Slice
  | [] => none
  | cell :: rest =>
    match (Slice.mk position (cell :: rest)).word? CharClass.isWord with
    | some (name, after) =>
      if Declarator.suffixEnd true none after.start after.cells = after.stop then some name
      else name? (position + 1) rest
    | none => name? (position + 1) rest

/-- The parameter that an entry of a list declares: its name is the last word and its type what
stands before. An entry without a name gets one from its place in the list. -/
def ofEntry (index : Nat) (entry : Slice) : Parameter :=
  match name? entry.start entry.cells with
  | some name => ⟨name.text, (entry.toOffset name.start).trim.text, name.start⟩
  | none => ⟨s!"param{index}", entry.text, entry.start⟩

/-- Whether an entry declares nothing. -/
def isVacant (entry : Slice) : Bool :=
  entry.isEmpty || entry.text = "void" || entry.text = "..."

def readList (list : Slice) : List Parameter :=
  ((list.split 0x2C).map Slice.trim).zipIdx.filterMap fun (entry, index) =>
    if isVacant entry then none else some (ofEntry index entry)

end Parameter

structure FunctionDefinition where
  start : Nat
  returnType : String
  name : String
  nameOffset : Nat
  parameters : List Parameter
  /-- Where the body's opening brace stands. -/
  opening : Nat
  /-- Where the body's closing brace stands, if there is one. -/
  closing : Option Nat
  /-- What stands between the braces, or after the opening one. -/
  body : Slice
  deriving DecidableEq, Repr

namespace FunctionDefinition

/-- The body with its braces. -/
def extent (function : FunctionDefinition) : Extent :=
  ⟨function.opening, function.closing.getD function.body.stop⟩

def parameterNames (function : FunctionDefinition) : List String :=
  function.parameters.map (·.name)

/-- The function definition that the slice begins with. A body that is never closed runs to the end
of the slice. -/
def read? (slice : Slice) : Option FunctionDefinition :=
  (Declarator.read? slice).bind fun declarator =>
    let list := declarator.rest.skipSpace
    if list.startsWith '(' then
      list.block?.bind fun (entries, after) =>
        let braced := after.skipBlank
        if braced.startsWith '{' then
          some {
            start := slice.start
            returnType := Text.trim declarator.typeWords.text
            name := declarator.name.text
            nameOffset := declarator.name.start
            parameters := Parameter.readList entries
            opening := braced.start
            closing := braced.close?
            body := match braced.block? with
              | some (body, _) => body
              | none => braced.drop 1 }
        else none
    else none

/-- The definitions at the top of a text. -/
def findAll (text : Slice) : List FunctionDefinition :=
  (text.statementStarts .topLevel).filterMap fun start => read? (text.fromOffset start)

end FunctionDefinition

/-- The declarations at the top of a text that no function body contains. -/
def Declaration.findGlobals (text : Slice) (functions : List FunctionDefinition) :
    List Declaration :=
  ((text.statementStarts .topLevel).filterMap fun start =>
    Declaration.read? (text.fromOffset start)).filter fun declaration =>
      !functions.any fun function => function.extent.contains declaration.start

end CodeOutline
