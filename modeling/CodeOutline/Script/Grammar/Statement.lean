import CodeOutline.Script.Grammar.Basic

namespace CodeOutline.Script

/-- A statement of a keyword that may name a label. -/
def jump (keyword : String) : Construct :=
  .seq [keyword, .field "label" (.optional (.as "statement_identifier" identifier)),
    the "_semicolon"]

/-- A name or a pattern, in a field. -/
def binding (field : String) : Construct :=
  .field field (.choice [identifier, the "_destructuring_pattern"])

def simpleStatementRules : Rules := [
  ("statement", .choice [the "export_statement", the "import_statement", the "debugger_statement",
    the "expression_statement", the "declaration", the "statement_block", the "if_statement",
    the "switch_statement", the "for_statement", the "for_in_statement", the "while_statement",
    the "do_statement", the "try_statement", the "with_statement", the "break_statement",
    the "continue_statement", the "return_statement", the "throw_statement",
    the "empty_statement", the "labeled_statement"]),
  ("expression_statement", .seq [the "_expressions", the "_semicolon"]),
  ("variable_declaration", .seq ["var", list1 (the "variable_declarator"), the "_semicolon"]),
  ("lexical_declaration", .seq [.field "kind" (.choice ["let", "const"]),
    list1 (the "variable_declarator"), the "_semicolon"]),
  ("variable_declarator", .seq [binding "name", .optional (the "_initializer")]),
  ("statement_block", .right (.seq [braced [.many (the "statement")], .optional implied]))]

def controlStatementRules : Rules := [
  ("else_clause", .seq ["else", the "statement"]),
  ("if_statement", .right (.seq ["if", part "condition" "parenthesized_expression",
    part "consequence" "statement", .optional (part "alternative" "else_clause")])),
  ("switch_statement", .seq ["switch", part "value" "parenthesized_expression",
    part "body" "switch_body"]),
  ("for_statement", .seq ["for", "(",
    .choice [
      .field "initializer" (.choice [the "lexical_declaration", the "variable_declaration"]),
      .seq [part "initializer" "_expressions", ";"],
      part "initializer" "empty_statement"],
    .field "condition" (.choice [.seq [the "_expressions", ";"], the "empty_statement"]),
    .field "increment" (.optional (the "_expressions")), ")", part "body" "statement"]),
  ("for_in_statement", .seq ["for", .optional "await", the "_for_header", part "body" "statement"]),
  ("_for_header", .seq ["(",
    .choice [
      .field "left" (.choice [the "_lhs_expression", the "parenthesized_expression"]),
      .seq [.field "kind" "var", binding "left", .optional (the "_initializer")],
      .seq [.field "kind" (.choice ["let", "const"]), binding "left", .optional implied]],
    .field "operator" (.choice ["in", "of"]), part "right" "_expressions", ")"]),
  ("while_statement", .seq ["while", part "condition" "parenthesized_expression",
    part "body" "statement"]),
  ("do_statement", .right (.seq ["do", part "body" "statement", "while",
    part "condition" "parenthesized_expression", .optional (the "_semicolon")])),
  ("try_statement", .seq ["try", part "body" "statement_block",
    .optional (part "handler" "catch_clause"), .optional (part "finalizer" "finally_clause")]),
  ("with_statement", .seq ["with", part "object" "parenthesized_expression",
    part "body" "statement"]),
  ("break_statement", jump "break"),
  ("continue_statement", jump "continue"),
  ("debugger_statement", .seq ["debugger", the "_semicolon"]),
  ("return_statement", .seq ["return", .optional (the "_expressions"), the "_semicolon"]),
  ("throw_statement", .seq ["throw", the "_expressions", the "_semicolon"]),
  ("empty_statement", ";"),
  ("labeled_statement", .weighted (-1) (.seq [.field "label" (named "statement_identifier"), ":",
    part "body" "statement"])),
  ("switch_body", braced [.many (.choice [the "switch_case", the "switch_default"])]),
  ("switch_case", .seq ["case", part "value" "_expressions", ":",
    .field "body" (.many (the "statement"))]),
  ("switch_default", .seq ["default", ":", .field "body" (.many (the "statement"))]),
  ("catch_clause", .seq ["catch", .optional (.seq ["(", binding "parameter", ")"]),
    part "body" "statement_block"]),
  ("finally_clause", .seq ["finally", part "body" "statement_block"])]

def statementRules : Rules :=
  simpleStatementRules ++ controlStatementRules

def moduleRules : Rules := [
  ("program", .seq [.optional (.token .interpreterLine), .many (the "statement")]),
  ("export_statement", .choice [
    .seq ["export",
      .choice [
        .seq ["*", the "_from_clause"],
        .seq [the "namespace_export", the "_from_clause"],
        .seq [the "export_clause", the "_from_clause"],
        the "export_clause"],
      the "_semicolon"],
    .seq [.many (part "decorator" "decorator"), "export",
      .choice [
        part "declaration" "declaration",
        .seq ["default",
          .choice [
            part "declaration" "declaration",
            .seq [part "value" "expression", the "_semicolon"]]]]]]),
  ("namespace_export", .seq ["*", "as", the "_module_export_name"]),
  ("export_clause", braced [list (the "export_specifier"), .optional ","]),
  ("export_specifier", .seq [part "name" "_module_export_name",
    .optional (.seq ["as", part "alias" "_module_export_name"])]),
  ("_module_export_name", .choice [identifier, the "string"]),
  ("declaration", .choice [the "function_declaration", the "generator_function_declaration",
    the "class_declaration", the "lexical_declaration", the "variable_declaration"]),
  ("import", "import"),
  ("import_statement", .seq ["import",
    .choice [.seq [the "import_clause", the "_from_clause"], part "source" "string"],
    .optional (the "import_attribute"), the "_semicolon"]),
  ("import_clause", .choice [the "namespace_import", the "named_imports",
    .seq [identifier,
      .optional (.seq [",", .choice [the "namespace_import", the "named_imports"]])]]),
  ("_from_clause", .seq ["from", part "source" "string"]),
  ("namespace_import", .seq ["*", "as", identifier]),
  ("named_imports", braced [list (the "import_specifier"), .optional ","]),
  ("import_specifier", .choice [.field "name" identifier,
    .seq [part "name" "_module_export_name", "as", .field "alias" identifier]]),
  ("import_attribute", .seq ["with", the "object"])]

end CodeOutline.Script
