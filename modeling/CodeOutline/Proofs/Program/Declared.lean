import CodeOutline.Proofs.Program.Syntax
import CodeOutline.Symbol.Table

namespace CodeOutline

namespace Program

/-- What is known of a declared name besides its place. -/
structure Declared where
  name : String
  kind : SymbolKind
  declaredType : String
  scope : Scope
  parameters : Option (List String)
  deriving DecidableEq, Repr

def Variable.declared (scope : Scope) (declared : Variable) : Declared :=
  ⟨declared.name.text, .variable, declared.type.text, scope, none⟩

def Init.variables : Init → List Variable
  | .blank _ => []
  | .declaration _ declared => [declared]
  | .assignment _ _ _ _ => []
  | .value _ => []

mutual

/-- The variables declared in a statement, at any depth. -/
def Statement.variables : Statement → List Variable
  | .declaration declared => [declared]
  | .call _ _ => []
  | .result _ => []
  | .conditional _ body alternative => body.variables ++ alternative.variables
  | .forLoop header body => header.init.variables ++ body.variables
  | .whileLoop _ body => body.variables

def Alternative.variables : Alternative → List Variable
  | .none => []
  | .chain _ _ _ _ body alternative => body.variables ++ alternative.variables
  | .block _ _ body => body.variables

def Block.variables : Block → List Variable
  | .done _ => []
  | .cons _ statement rest => statement.variables ++ rest.variables

end

/-- Whether the first clause of a heading is empty, a declaration or an assignment. -/
def Init.isOrdinary : Init → Bool
  | .value _ => false
  | _ => true

mutual

/-- Whether the headings of all `for` loops are ordinary. -/
def Statement.isOrdinary : Statement → Bool
  | .declaration _ => true
  | .call _ _ => true
  | .result _ => true
  | .conditional _ body alternative => body.isOrdinary && alternative.isOrdinary
  | .forLoop header body => header.init.isOrdinary && body.isOrdinary
  | .whileLoop _ body => body.isOrdinary

def Alternative.isOrdinary : Alternative → Bool
  | .none => true
  | .chain _ _ _ _ body alternative => body.isOrdinary && alternative.isOrdinary
  | .block _ _ body => body.isOrdinary

def Block.isOrdinary : Block → Bool
  | .done _ => true
  | .cons _ statement rest => statement.isOrdinary && rest.isOrdinary

end

def Function.declared (defined : Function) : List Declared :=
  ⟨defined.name.text, .function, defined.type.text, .global,
      some (defined.formals.map (·.name.text))⟩ ::
    (defined.formals.map (fun formal => ⟨formal.name.text, .parameter, formal.type.text,
        .function defined.name.text, none⟩) ++
      defined.body.variables.map (Variable.declared (.function defined.name.text)))

def Member.declared : Member → List Declared
  | .declaration declared => [declared.declared .global]
  | .function defined => defined.declared

def Member.isOrdinary : Member → Bool
  | .declaration _ => true
  | .function defined => defined.body.isOrdinary

/-- The declarations of a program: its functions and variables, their parameters and all the
variables in their bodies. -/
def declared (program : Program) : List Declared :=
  program.members.flatMap fun (_, member) => member.declared

def isOrdinary (program : Program) : Bool :=
  program.members.all fun (_, member) => member.isOrdinary

end Program

end CodeOutline
