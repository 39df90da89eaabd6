import CodeOutline.Script.Describe
import CodeOutline.Script.ParseTree
import CodeOutline.Symbol.Table
import CodeOutline.Tree.Basic

namespace CodeOutline.Script

namespace ParseTree

def isBoundName (tree : ParseTree) : Bool :=
  tree.kind = "identifier" || tree.kind = "shorthand_property_identifier_pattern"

/-- The children through which a pattern binds names. -/
def bindingParts (tree : ParseTree) : List ParseTree :=
  if ["assignment_pattern", "object_assignment_pattern"].contains tree.kind then
    (tree.childByField? "left").toList
  else if tree.kind = "pair_pattern" then (tree.childByField? "value").toList
  else if ["formal_parameters", "object_pattern", "array_pattern", "rest_pattern"].contains
      tree.kind then
    tree.namedChildren
  else []

theorem bindingParts_sublist (tree : ParseTree) : tree.bindingParts.Sublist tree.children := by
  have field (name : String) : (tree.childByField? name).toList.Sublist tree.children := by
    cases h : tree.childByField? name with
    | none => exact List.nil_sublist _
    | some child => exact List.singleton_sublist.mpr (List.mem_of_find?_eq_some h)
  unfold bindingParts
  split
  · exact field _
  split
  · exact field _
  split
  · exact List.filter_sublist
  · exact List.nil_sublist _

/-- The bound names of the patterns that are left to visit, in the order of the text. -/
def boundNames : List ParseTree → List ParseTree
  | [] => []
  | tree :: pending =>
    if tree.isBoundName then tree :: boundNames pending
    else boundNames (tree.bindingParts ++ pending)
termination_by pending => Tree.sizeAll pending
decreasing_by
  · rw [Tree.sizeAll_cons, Tree.size_eq]
    omega
  · have h := Tree.sizeAll_le_of_sublist tree.bindingParts_sublist
    rw [Tree.sizeAll_append, Tree.sizeAll_cons, Tree.size_eq tree]
    omega

/-- The declaration in an item of the top level. -/
def declaration? (item : ParseTree) : Option ParseTree :=
  if item.kind = "export_statement" then item.childByField? "declaration" else some item

/-- The symbol that an identifier stands for. -/
def symbol (text : Slice) (kind : SymbolKind) (declaredType : String)
    (parameters : Option (List String)) (identifier : ParseTree) : String × SymbolEntry :=
  let name := identifier.textIn text
  let location := location text identifier.start.byte identifier.start
  (name, {
    kind := kind
    declaredType := declaredType
    scope := .global
    line := location.line
    column := location.column
    parameters := parameters
    pseudoAddress := PseudoAddress.ofName name .global
    offset := identifier.start.byte })

/-- The symbols that a declaration makes. -/
def symbols (text : Slice) (item : ParseTree) : List (String × SymbolEntry) :=
  if ["function_declaration", "generator_function_declaration"].contains item.kind then
    match item.childByField? "name" with
    | some name =>
      let parameters := boundNames (item.childByField? "parameters").toList
      [name.symbol text .function "function" (some (parameters.map (textIn text)))]
    | none => []
  else if ["lexical_declaration", "variable_declaration"].contains item.kind then
    let word := firstWord (item.textIn text)
    let keyword := if word.isEmpty then "var" else String.ofList word
    let patterns := item.namedChildren.filterMap (childByField? "name")
    (patterns.flatMap fun pattern => boundNames [pattern]).map (symbol text .variable keyword none)
  else []

end ParseTree

/-- The symbols at the top level of a parse tree, in the order of the text. -/
def declared (text : Slice) (root : ParseTree) : List (String × SymbolEntry) :=
  (root.namedChildren.filterMap ParseTree.declaration?).flatMap (ParseTree.symbols text)

end CodeOutline.Script
