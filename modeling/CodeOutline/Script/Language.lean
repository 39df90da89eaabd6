import CodeOutline.Grammar.Table
import CodeOutline.Script.Grammar.Expression
import CodeOutline.Script.Grammar.Member
import CodeOutline.Script.Grammar.Statement

namespace CodeOutline.Script

/-- Levels of operators and of what binds like them, from the tightest to the loosest. -/
def operatorRanks : List Rank :=
  [.level "member", .level "template_call", .level "call", .rule "update_expression"] ++
    ["unary_void", "binary_exp", "binary_times", "binary_plus", "binary_shift", "binary_compare",
      "binary_relation", "binary_equality", "bitwise_and", "bitwise_xor", "bitwise_or",
      "logical_and", "logical_or", "ternary"].map .level ++
    [.rule "sequence_expression", .rule "arrow_function"]

def scriptGrammar : Grammar Terminal where
  rules := moduleRules ++ statementRules ++ expressionRules ++ markupRules ++ functionRules ++
    accessRules ++ operatorRules ++ literalRules ++ memberRules
  inlined := ["_call_signature", "_formal_parameter", "_expressions", "_semicolon", "_identifier",
    "_reserved_identifier", "_jsx_attribute", "_jsx_element_name", "_jsx_child", "_jsx_element",
    "_jsx_attribute_name", "_jsx_attribute_value", "_jsx_identifier", "_lhs_expression"]
  unseen := ["statement", "declaration", "expression", "primary_expression", "pattern"]
  ranks := [
    operatorRanks,
    [.level "assign", .rule "primary_expression"],
    [.level "member", .level "template_call", .level "new", .level "call", .rule "expression"],
    [.level "declare", .level "literal"],
    [.rule "primary_expression", .rule "statement_block", .level "object"],
    [.rule "meta_property", .rule "import"],
    [.rule "import_statement", .rule "import"],
    [.rule "export_statement", .rule "primary_expression"],
    [.rule "lexical_declaration", .rule "primary_expression"]]
  stop := .stop
  word := .identifier
  extras := [.comment, .markupComment]
  contextual := [.semicolon, .templateText, .questionMark, .markupComment, .markupText]

/-- The grammar with its symbols numbered. -/
def table : Grammar.Table Terminal :=
  Grammar.compile scriptGrammar fun terminal => (terminal.kind, terminal.isSeen)

end CodeOutline.Script
