import CodeOutline.Script.Grammar.Basic

namespace CodeOutline.Script

def stringOf (quote : String) (fragment : Terminal) : Construct :=
  .seq [quote, .many (.choice [.as "string_fragment" (.token fragment), .token .escape]), quote]

def literalRules : Rules := [
  ("string", .choice [stringOf "\"" .doubleFragment, stringOf "'" .singleFragment]),
  ("template_string", .seq ["\x60",
    .many (.choice [.as "string_fragment" (.token .templateText), .token .escape,
      the "template_substitution"]),
    "\x60"]),
  ("template_substitution", .seq ["$\x7b", the "_expressions", "\x7d"]),
  ("regex", .seq ["/", .field "pattern" (.token .regexPattern), .token .regexEnd,
    .optional (.field "flags" (.token .regexFlags))]),
  ("_identifier", .choice ["undefined", identifier]),
  ("meta_property", .choice [.seq ["new", ".", "target"], .seq ["import", ".", "meta"]])]

def expressionRules : Rules := [
  ("parenthesized_expression", .seq ["(", the "_expressions", ")"]),
  ("_expressions", .choice [the "expression", the "sequence_expression"]),
  ("expression", .choice [the "primary_expression", the "_jsx_element",
    the "assignment_expression", the "augmented_assignment_expression", the "await_expression",
    the "unary_expression", the "binary_expression", the "ternary_expression",
    the "update_expression", the "new_expression", the "yield_expression"]),
  ("primary_expression", .choice [the "subscript_expression", the "member_expression",
    the "parenthesized_expression", the "_identifier",
    .as "identifier" (the "_reserved_identifier"), "this", "super", .token .number, the "string",
    the "template_string", the "regex", "true", "false", "null", the "object", the "array",
    the "function_expression", the "arrow_function", the "generator_function", the "class",
    the "meta_property", the "call_expression"]),
  ("yield_expression", .right (.seq ["yield",
    .choice [.seq ["*", the "expression"], .optional (the "expression")]])),
  ("object", .level "object" (braced [list (.optional (.choice [the "pair", the "spread_element",
    the "method_definition", named "shorthand_property_identifier"]))])),
  ("object_pattern", .level "object" (braced [list (.optional (.choice [the "pair_pattern",
    the "rest_pattern", the "object_assignment_pattern",
    named "shorthand_property_identifier_pattern"]))])),
  ("assignment_pattern", .seq [part "left" "pattern", "=", part "right" "expression"]),
  ("object_assignment_pattern", .seq [
    .field "left" (.choice [named "shorthand_property_identifier_pattern",
      the "_destructuring_pattern"]),
    "=", part "right" "expression"]),
  ("array", .seq ["[",
    list (.optional (.choice [the "expression", the "spread_element"])), "]"]),
  ("array_pattern", .seq ["[",
    list (.optional (.choice [the "pattern", the "assignment_pattern"])), "]"])]

def assignmentMarks : List Construct :=
  ["+=", "-=", "*=", "/=", "%=", "^=", "&=", "|=", ">>=", ">>>=", "<<=", "**=", "&&=", "||=",
    "??="]

/-- Operators between two expressions, with their levels. -/
def infixLevels : List (String × String) := [
  ("&&", "logical_and"), ("||", "logical_or"), (">>", "binary_shift"), (">>>", "binary_shift"),
  ("<<", "binary_shift"), ("&", "bitwise_and"), ("^", "bitwise_xor"), ("|", "bitwise_or"),
  ("+", "binary_plus"), ("-", "binary_plus"), ("*", "binary_times"), ("/", "binary_times"),
  ("%", "binary_times"), ("**", "binary_exp"), ("<", "binary_relation"),
  ("<=", "binary_relation"), ("==", "binary_equality"), ("===", "binary_equality"),
  ("!=", "binary_equality"), ("!==", "binary_equality"), (">=", "binary_relation"),
  (">", "binary_relation"), ("??", "ternary"), ("instanceof", "binary_relation"),
  ("in", "binary_relation")]

/-- An expression with an operator in the middle. A private name may be looked for in an object. -/
def infixExpression (operator level : String) : Construct :=
  let left := if operator = "in" then
      .field "left" (.choice [the "expression", privateName])
    else part "left" "expression"
  let side := if operator = "**" then Associativity.right else .left
  .associative side (.level level
    (.seq [left, .field "operator" operator, part "right" "expression"]))

def accessRules : Rules := [
  ("call_expression", .choice [
    .level "call" (.seq [.field "function" (.choice [the "expression", the "import"]),
      part "arguments" "arguments"]),
    .level "template_call" (.seq [
      .field "function" (.choice [the "primary_expression", the "new_expression"]),
      part "arguments" "template_string"]),
    .level "member" (.seq [part "function" "primary_expression", .field "optional_chain" "?.",
      part "arguments" "arguments"])]),
  ("new_expression", .right (.level "new" (.seq ["new",
    .field "constructor" (.choice [the "primary_expression", the "new_expression"]),
    .field "arguments" (.optional (.weighted 1 (the "arguments")))]))),
  ("await_expression", .level "unary_void" (.seq ["await", the "expression"])),
  ("member_expression", .level "member" (.seq [
    .field "object" (.choice [the "expression", the "primary_expression", the "import"]),
    .choice [".", .field "optional_chain" "?."],
    .field "property" (.choice [privateName, .as "property_identifier" identifier])])),
  ("subscript_expression", .right (.level "member" (.seq [
    .field "object" (.choice [the "expression", the "primary_expression"]),
    .optional (.field "optional_chain" "?."), "[", part "index" "_expressions", "]"])))]

def operatorRules : Rules := [
  ("_lhs_expression", .choice [the "member_expression", the "subscript_expression",
    the "_identifier", .as "identifier" (the "_reserved_identifier"),
    the "_destructuring_pattern"]),
  ("assignment_expression", .right (.level "assign" (.seq [
    .field "left" (.choice [the "parenthesized_expression", the "_lhs_expression"]), "=",
    part "right" "expression"]))),
  ("_augmented_assignment_lhs", .choice [the "member_expression", the "subscript_expression",
    .as "identifier" (the "_reserved_identifier"), identifier, the "parenthesized_expression"]),
  ("augmented_assignment_expression", .right (.level "assign" (.seq [
    part "left" "_augmented_assignment_lhs", .field "operator" (.choice assignmentMarks),
    part "right" "expression"]))),
  ("_initializer", .seq ["=", part "value" "expression"]),
  ("_destructuring_pattern", .choice [the "object_pattern", the "array_pattern"]),
  ("spread_element", .seq ["...", the "expression"]),
  ("ternary_expression", .right (.level "ternary" (.seq [part "condition" "expression",
    .titled ⟨"?", false⟩ (.token .questionMark), part "consequence" "expression", ":",
    part "alternative" "expression"]))),
  ("binary_expression", .choice (infixLevels.map fun (operator, level) =>
    infixExpression operator level)),
  ("unary_expression", .left (.level "unary_void" (.seq [
    .field "operator" (.choice ["!", "~", "-", "+", "typeof", "void", "delete"]),
    part "argument" "expression"]))),
  ("update_expression", .left (.choice [
    .seq [part "argument" "expression", .field "operator" (.choice ["++", "--"])],
    .seq [.field "operator" (.choice ["++", "--"]), part "argument" "expression"]])),
  ("sequence_expression", .right (list1 (the "expression")))]

end CodeOutline.Script

namespace CodeOutline.Script

/-- A string in which characters may be written as references. -/
def markupString (quote : String) (fragment : Terminal) : Construct :=
  .seq [quote,
    .many (.choice [.as "string_fragment" (.token fragment), .token .characterReference]), quote]

def markupRules : Rules := [
  ("_jsx_element", .choice [the "jsx_element", the "jsx_self_closing_element"]),
  ("jsx_element", .seq [part "open_tag" "jsx_opening_element", .many (the "_jsx_child"),
    part "close_tag" "jsx_closing_element"]),
  ("jsx_expression", braced [
    .optional (.choice [the "expression", the "sequence_expression", the "spread_element"])]),
  ("_jsx_child", .choice [.token .markupText, .token .characterReference, the "_jsx_element",
    the "jsx_expression"]),
  ("jsx_opening_element", .weighted (-1) (.seq ["<",
    .optional (.seq [part "name" "_jsx_element_name", .many (part "attribute" "_jsx_attribute")]),
    ">"])),
  ("_jsx_identifier", .choice [.as "identifier" (.token .markupName), identifier]),
  ("nested_identifier", .level "member" (.seq [
    .field "object" (.choice [identifier, .as "member_expression" (the "nested_identifier")]), ".",
    .field "property" (.as "property_identifier" identifier)])),
  ("jsx_namespace_name", .seq [the "_jsx_identifier", ":", the "_jsx_identifier"]),
  ("_jsx_element_name", .choice [the "_jsx_identifier",
    .as "member_expression" (the "nested_identifier"), the "jsx_namespace_name"]),
  ("jsx_closing_element", .seq ["</", .optional (part "name" "_jsx_element_name"), ">"]),
  ("jsx_self_closing_element", .seq ["<", part "name" "_jsx_element_name",
    .many (part "attribute" "_jsx_attribute"), "/>"]),
  ("_jsx_attribute", .choice [the "jsx_attribute", the "jsx_expression"]),
  ("_jsx_attribute_name", .choice [.as "property_identifier" (the "_jsx_identifier"),
    the "jsx_namespace_name"]),
  ("jsx_attribute", .seq [the "_jsx_attribute_name",
    .optional (.seq ["=", the "_jsx_attribute_value"])]),
  ("_jsx_string", .choice [markupString "\"" .doubleMarkupFragment,
    markupString "'" .singleMarkupFragment]),
  ("_jsx_attribute_value", .choice [.as "string" (the "_jsx_string"), the "jsx_expression",
    the "_jsx_element"])]

end CodeOutline.Script
