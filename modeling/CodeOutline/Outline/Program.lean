import CodeOutline.Outline.Statement

namespace CodeOutline

namespace Outline

def ofParameter (parameter : Parameter) : Outline :=
  .node ⟨.parameter, .param, parameter.offset, some parameter.name,
    if parameter.declaredType.isEmpty then .absent else .words parameter.declaredType⟩ []

def ofFunction (function : FunctionDefinition) : Outline :=
  .node ⟨.functionDeclaration, .item, function.start, some function.name,
      .words function.returnType⟩
    (function.parameters.map ofParameter ++
      [.node ⟨.blockStatement, .body, function.opening, none, .absent⟩ (ofBlock function.body)])

/-- The tree of a masked text. -/
def ofText (text : Slice) : Outline :=
  let functions := FunctionDefinition.findAll text
  let globals := Declaration.findGlobals text functions
  let items := functions.map ofFunction ++ globals.map (ofDeclaration .item)
  .node ⟨.program, .root, 0, none, .absent⟩
    (items.mergeSort fun left right => left.label.offset ≤ right.label.offset)

end Outline

namespace Source

/-- The statements in a stretch of the masked text. -/
def statements (source : Source) (block : Slice) : List Node :=
  (Outline.ofBlock block).map (Tree.map source.describe)

def tree (source : Source) : Node :=
  (Outline.ofText source.view).map source.describe

end Source

/-- The structural tree of a text. Text that is not recognised is passed over. -/
def structuralTree (text : String) : Node :=
  (Source.ofString text).tree

end CodeOutline
