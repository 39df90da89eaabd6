import CodeOutline.Script.Grammar.Basic

namespace CodeOutline.Script

def decorators : Construct :=
  .many (part "decorator" "decorator")

/-- A class with the given name and with what may follow it. -/
def classOf (name : Construct) (after : List Construct) : Construct :=
  .seq [decorators, "class", .field "name" name, .optional (the "class_heritage"),
    part "body" "class_body", .seq after]

/-- A function with a mark, the given name and what may follow it. -/
def functionOf (mark : List Construct) (name : Construct) (after : List Construct) : Construct :=
  .seq [.optional "async", "function", .seq mark, .field "name" name, the "_call_signature",
    part "body" "statement_block", .seq after]

def functionRules : Rules := [
  ("class", .level "literal" (classOf (.optional identifier) [])),
  ("class_declaration", .level "declare" (classOf identifier [.optional implied])),
  ("class_heritage", .seq ["extends", the "expression"]),
  ("function_expression", .level "literal" (functionOf [] (.optional identifier) [])),
  ("function_declaration", .right (.level "declare"
    (functionOf [] identifier [.optional implied]))),
  ("generator_function", .level "literal" (functionOf ["*"] (.optional identifier) [])),
  ("generator_function_declaration", .right (.level "declare"
    (functionOf ["*"] identifier [.optional implied]))),
  ("arrow_function", .seq [.optional "async",
    .choice [
      .field "parameter" (.choice [.as "identifier" (the "_reserved_identifier"), identifier]),
      the "_call_signature"],
    "=>", .field "body" (.choice [the "expression", the "statement_block"])]),
  ("_call_signature", part "parameters" "formal_parameters"),
  ("_formal_parameter", .choice [the "pattern", the "assignment_pattern"])]

def memberRules : Rules := [
  ("arguments", .seq ["(", list (.optional (.choice [the "expression", the "spread_element"])),
    ")"]),
  ("decorator", .seq ["@", .choice [identifier,
    .as "member_expression" (the "decorator_member_expression"),
    .as "call_expression" (the "decorator_call_expression"), the "parenthesized_expression"]]),
  ("decorator_member_expression", .level "member" (.seq [
    .field "object" (.choice [identifier,
      .as "member_expression" (the "decorator_member_expression")]), ".",
    .field "property" (.as "property_identifier" identifier)])),
  ("decorator_call_expression", .level "call" (.seq [
    .field "function" (.choice [identifier,
      .as "member_expression" (the "decorator_member_expression")]),
    part "arguments" "arguments"])),
  ("class_body", braced [.many (.choice [
    .seq [part "member" "method_definition", .optional ";"],
    .seq [part "member" "field_definition", the "_semicolon"],
    part "member" "class_static_block",
    ";"])]),
  ("field_definition", .seq [decorators, .optional "static", part "property" "_property_name",
    .optional (the "_initializer")]),
  ("formal_parameters", .seq ["(",
    .optional (.seq [list1 (the "_formal_parameter"), .optional ","]), ")"]),
  ("class_static_block", .seq ["static", part "body" "statement_block"]),
  ("pattern", .weighted (-1) (.choice [the "_lhs_expression", the "rest_pattern"])),
  ("rest_pattern", .right (.seq ["...", the "_lhs_expression"])),
  ("method_definition", .seq [decorators,
    .optional (.choice ["static", .titled ⟨"static get", false⟩ (.token .staticGetter)]),
    .optional "async", .optional (.choice ["get", "set", "*"]), part "name" "_property_name",
    part "parameters" "formal_parameters", part "body" "statement_block"]),
  ("pair", .seq [part "key" "_property_name", ":", part "value" "expression"]),
  ("pair_pattern", .seq [part "key" "_property_name", ":",
    .field "value" (.choice [the "pattern", the "assignment_pattern"])]),
  ("_property_name", .choice [named "property_identifier", privateName, the "string",
    .token .number, the "computed_property_name"]),
  ("computed_property_name", .seq ["[", the "expression", "]"]),
  ("_reserved_identifier", .choice ["get", "set", "async", "static", "export", "let"]),
  ("_semicolon", .choice [implied, ";"])]

end CodeOutline.Script
