import Capabilities.Script.Node

/-!
# Names that a script writes down

Identifiers, string literals and the keys of objects, read as the names they denote. A string
literal denotes its text with each escape replaced; a key denotes its text whether it is written
as a word, a string or a number. A computed key has no name until the script runs.
-/

namespace Capabilities.Script

/-- Replace the escapes of a string literal's text: `\n`, `\t`, `\r` and `\0` stand for control
    characters, any other character behind a backslash stands for itself. -/
def unescape : List Char → List Char
  | '\\' :: c :: rest =>
    let meant := match c with
      | 'n' => '\n'
      | 't' => '\t'
      | 'r' => '\r'
      | '0' => '\x00'
      | c => c
    meant :: unescape rest
  | c :: rest => c :: unescape rest
  | [] => []

namespace Node

def identifierName? (node : Node) : Option String :=
  if node.kind.isName then some node.lexeme else none

def stringValue? (node : Node) : Option String :=
  if node.kind == .string then
    match node.lexeme.toList with
    | _ :: c :: rest => some (String.ofList (unescape (c :: rest).dropLast))
    | _ => none
  else none

def keyName? (node : Node) : Option String :=
  match node.kind with
  | .string => node.stringValue?
  | .number => some node.lexeme
  | _ => node.identifierName?

/-! ### Parameters -/

/-- The parameters of a function, also the lone one of an arrow without parentheses. -/
def parameterNodes (node : Node) : List Node :=
  match node.part? .parameter with
  | some single => [single]
  | none =>
    match node.part? .parameters with
    | some list => list.parts
    | none => []

/-- The name a parameter binds. Defaults and rests bind their name; patterns have none. -/
def parameterName? (node : Node) : Option String :=
  match node.kind with
  | .identifier => node.identifierName?
  | .assignmentPattern => (node.part? .left).bind identifierName?
  | .restPattern => node.parts.head?.bind identifierName?
  | _ => none

/-- The name of the part in a role, if it is an identifier. -/
def nameOf? (node : Node) (role : Role) : Option String :=
  (node.part? role).bind identifierName?

end Node

end Capabilities.Script
