/-!
# Kinds and roles of script nodes

A script is read into a tree whose nodes carry a *kind* (what construct the node is) and,
below a parent that distinguishes its parts, a *role* (which part of the parent it is).
`Kind.name` is the written name of a kind, used wherever a tree is shown.

Only constructs that can be named are listed: punctuation and keywords leave no node of their own.
`Kind.other` stands for all further kinds, such as those of errors, of markup and of decorators;
nothing that reads a tree knows more of them than that they have children.
-/

namespace Capabilities.Script

/-! ### Kinds -/

/-- The construct a node stands for. -/
inductive Kind where
  | program | hashBangLine | comment
  -- modules
  | exportStatement | exportClause | exportSpecifier | namespaceExport
  | importStatement | importClause | importSpecifier | namedImports | namespaceImport
  | importAttribute
  -- declarations
  | variableDeclaration | lexicalDeclaration | variableDeclarator
  | functionDeclaration | generatorFunctionDeclaration | classDeclaration
  -- statements
  | statementBlock | expressionStatement | ifStatement | elseClause
  | switchStatement | switchBody | switchCase | switchDefault
  | forStatement | forInStatement | whileStatement | doStatement
  | tryStatement | catchClause | finallyClause | withStatement
  | breakStatement | continueStatement | returnStatement | throwStatement | debuggerStatement
  | emptyStatement | labeledStatement | statementIdentifier
  -- names and literals
  | identifier | propertyIdentifier | privatePropertyIdentifier
  | shorthandPropertyIdentifier | shorthandPropertyIdentifierPattern
  | selfReference | superReference | nullLiteral | undefinedLiteral | trueLiteral | falseLiteral
  | number | string | templateString | templateSubstitution | regex
  -- objects, arrays and patterns
  | object | pair | spreadElement | computedPropertyName | array
  | objectPattern | pairPattern | objectAssignmentPattern | arrayPattern | assignmentPattern
  | restPattern
  -- functions and classes
  | functionExpression | generatorFunction | arrowFunction | methodDefinition | formalParameters
  | classExpression | classHeritage | classBody | fieldDefinition | classStaticBlock
  -- expressions
  | callExpression | newExpression | arguments | memberExpression | subscriptExpression
  | optionalChain | assignmentExpression | augmentedAssignmentExpression | awaitExpression
  | yieldExpression | unaryExpression | binaryExpression | updateExpression | ternaryExpression
  | sequenceExpression | parenthesizedExpression | metaProperty | importReference
  -- everything else
  | other
deriving DecidableEq, Repr

def Kind.name : Kind → String
  | .program => "program"
  | .hashBangLine => "hash_bang_line"
  | .comment => "comment"
  | .exportStatement => "export_statement"
  | .exportClause => "export_clause"
  | .exportSpecifier => "export_specifier"
  | .namespaceExport => "namespace_export"
  | .importStatement => "import_statement"
  | .importClause => "import_clause"
  | .importSpecifier => "import_specifier"
  | .namedImports => "named_imports"
  | .namespaceImport => "namespace_import"
  | .importAttribute => "import_attribute"
  | .variableDeclaration => "variable_declaration"
  | .lexicalDeclaration => "lexical_declaration"
  | .variableDeclarator => "variable_declarator"
  | .functionDeclaration => "function_declaration"
  | .generatorFunctionDeclaration => "generator_function_declaration"
  | .classDeclaration => "class_declaration"
  | .statementBlock => "statement_block"
  | .expressionStatement => "expression_statement"
  | .ifStatement => "if_statement"
  | .elseClause => "else_clause"
  | .switchStatement => "switch_statement"
  | .switchBody => "switch_body"
  | .switchCase => "switch_case"
  | .switchDefault => "switch_default"
  | .forStatement => "for_statement"
  | .forInStatement => "for_in_statement"
  | .whileStatement => "while_statement"
  | .doStatement => "do_statement"
  | .tryStatement => "try_statement"
  | .catchClause => "catch_clause"
  | .finallyClause => "finally_clause"
  | .withStatement => "with_statement"
  | .breakStatement => "break_statement"
  | .continueStatement => "continue_statement"
  | .returnStatement => "return_statement"
  | .throwStatement => "throw_statement"
  | .debuggerStatement => "debugger_statement"
  | .emptyStatement => "empty_statement"
  | .labeledStatement => "labeled_statement"
  | .statementIdentifier => "statement_identifier"
  | .identifier => "identifier"
  | .propertyIdentifier => "property_identifier"
  | .privatePropertyIdentifier => "private_property_identifier"
  | .shorthandPropertyIdentifier => "shorthand_property_identifier"
  | .shorthandPropertyIdentifierPattern => "shorthand_property_identifier_pattern"
  | .selfReference => "this"
  | .superReference => "super"
  | .nullLiteral => "null"
  | .undefinedLiteral => "undefined"
  | .trueLiteral => "true"
  | .falseLiteral => "false"
  | .number => "number"
  | .string => "string"
  | .templateString => "template_string"
  | .templateSubstitution => "template_substitution"
  | .regex => "regex"
  | .object => "object"
  | .pair => "pair"
  | .spreadElement => "spread_element"
  | .computedPropertyName => "computed_property_name"
  | .array => "array"
  | .objectPattern => "object_pattern"
  | .pairPattern => "pair_pattern"
  | .objectAssignmentPattern => "object_assignment_pattern"
  | .arrayPattern => "array_pattern"
  | .assignmentPattern => "assignment_pattern"
  | .restPattern => "rest_pattern"
  | .functionExpression => "function_expression"
  | .generatorFunction => "generator_function"
  | .arrowFunction => "arrow_function"
  | .methodDefinition => "method_definition"
  | .formalParameters => "formal_parameters"
  | .classExpression => "class"
  | .classHeritage => "class_heritage"
  | .classBody => "class_body"
  | .fieldDefinition => "field_definition"
  | .classStaticBlock => "class_static_block"
  | .callExpression => "call_expression"
  | .newExpression => "new_expression"
  | .arguments => "arguments"
  | .memberExpression => "member_expression"
  | .subscriptExpression => "subscript_expression"
  | .optionalChain => "optional_chain"
  | .assignmentExpression => "assignment_expression"
  | .augmentedAssignmentExpression => "augmented_assignment_expression"
  | .awaitExpression => "await_expression"
  | .yieldExpression => "yield_expression"
  | .unaryExpression => "unary_expression"
  | .binaryExpression => "binary_expression"
  | .updateExpression => "update_expression"
  | .ternaryExpression => "ternary_expression"
  | .sequenceExpression => "sequence_expression"
  | .parenthesizedExpression => "parenthesized_expression"
  | .metaProperty => "meta_property"
  | .importReference => "import"
  | .other => "other"

/-- The kinds that make a function: declarations, expressions, arrows and methods of objects
    and classes (getters, setters and constructors included). -/
def Kind.isFunction : Kind → Bool
  | .functionDeclaration | .generatorFunctionDeclaration | .functionExpression
  | .generatorFunction | .arrowFunction | .methodDefinition => true
  | _ => false

/-- The kinds declared as a statement of their own and visible in the whole enclosing body. -/
def Kind.isFunctionDeclaration : Kind → Bool
  | .functionDeclaration | .generatorFunctionDeclaration => true
  | _ => false

def Kind.isName : Kind → Bool
  | .identifier | .propertyIdentifier | .shorthandPropertyIdentifier
  | .shorthandPropertyIdentifierPattern | .privatePropertyIdentifier => true
  | _ => false

/-! ### Roles -/

/-- Which part of its parent a node is. -/
inductive Role where
  | name | value | key | otherName | label | source | declaration
  | parameter | parameters | body
  | left | right | operand | condition | consequence | alternative
  | initializer | increment | handler | finalizer
  | object | property | index | callee | arguments | constructor
deriving DecidableEq, Repr

end Capabilities.Script
