namespace CodeOutline

inductive SymbolKind where
  | function
  | parameter
  | variable
  deriving DecidableEq, Repr

def SymbolKind.name : SymbolKind → String
  | .function => "function"
  | .parameter => "parameter"
  | .variable => "variable"

/-- Where a name is declared: outside all functions or in the function of the given name. -/
inductive Scope where
  | global
  | function (name : String)
  deriving DecidableEq, Repr

namespace Scope

def text : Scope → String
  | .global => "global"
  | .function name => name

def isGlobal : Scope → Bool
  | .global => true
  | .function _ => false

end Scope

namespace PseudoAddress

/-- The sum of a name's character codes. -/
def codeSum (name : String) : Nat :=
  name.toList.foldr (fun c sum => c.toNat + sum) 0

/-- Whether the sum fits into the 32 bits it is kept in. -/
def fits (name : String) : Bool :=
  codeSum name < UInt32.size

/-- A natural number in upper-case hexadecimal. -/
def hexadecimal (number : Nat) : String :=
  String.ofList ((Nat.toDigits 16 number).map Char.toUpper)

/-- The illustrative address shown beside a name. It depends on the characters of the name and on
whether the scope is global, and stands for no place in memory. -/
def ofName (name : String) (scope : Scope) : String :=
  if scope.isGlobal then "0x" ++ hexadecimal (codeSum name % 0xFFFF + 0x1000)
  else "SP+" ++ toString (codeSum name % 128)

end PseudoAddress

structure SymbolEntry where
  kind : SymbolKind
  declaredType : String
  scope : Scope
  line : Nat
  column : Nat
  /-- The parameter names of a function. -/
  parameters : Option (List String)
  pseudoAddress : String
  /-- Where the declared identifier stands. -/
  offset : Nat
  deriving DecidableEq, Repr

end CodeOutline

namespace CodeOutline

structure SymbolTable where
  entries : List (String × SymbolEntry)
  deriving DecidableEq, Repr

namespace SymbolTable

def empty : SymbolTable := ⟨[]⟩

def get? (table : SymbolTable) (name : String) : Option SymbolEntry :=
  table.entries.lookup name

def size (table : SymbolTable) : Nat :=
  table.entries.length

/-- Puts an entry at its place in the order of names, instead of the one of the same name. -/
def insert (name : String) (entry : SymbolEntry) :
    List (String × SymbolEntry) → List (String × SymbolEntry)
  | [] => [(name, entry)]
  | head :: rest =>
    if name = head.1 then (name, entry) :: rest
    else if name < head.1 then (name, entry) :: head :: rest
    else head :: insert name entry rest

/-- A later entry replaces an earlier one of its name, but nothing else than a function replaces a
function. -/
def register (table : SymbolTable) (name : String) (entry : SymbolEntry) : SymbolTable :=
  match table.get? name with
  | some held =>
    if held.kind = .function ∧ entry.kind ≠ .function then table
    else ⟨insert name entry table.entries⟩
  | none => ⟨insert name entry table.entries⟩

def registerAll (table : SymbolTable) (entries : List (String × SymbolEntry)) : SymbolTable :=
  entries.foldl (fun table entry => table.register entry.1 entry.2) table

end SymbolTable

end CodeOutline
