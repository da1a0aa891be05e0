import Capabilities.Script.Cursor
import Capabilities.Script.Pattern
import Capabilities.Script.Operator

/-!
# The grammar's recursion

A `Grammar` holds the three rules that the parts of a construct are read with. The rules of the
other grammar modules take the grammar as an argument and never call themselves, so that
`Script.parse` can tie the knot once, by depth.

This module holds what the rules for expressions and statements share: expression lists, blocks,
parameters and the tails of functions.
-/

namespace Capabilities.Script

/-- The rules that the parts of a construct are read with.

* `assignment` reads an expression without commas; its argument says whether `in` is an operator;
* `member` reads an operand with its members and, if its argument allows them, its calls;
* `statement` reads a statement. -/
structure Grammar where
  assignment : Bool → Rule Node
  member : Bool → Rule Node
  statement : Rule Node

namespace Grammar

open Rule

variable (g : Grammar)

def spanning (kind : Kind) (first : Node) (more : List Node) : Node :=
  ⟨0, kind, none, first.start, ((first :: more).getLast (by simp)).stop, "", first :: more⟩

def expression (inAllowed : Bool) : Rule Node := do
  let first ← g.assignment inAllowed
  if (← peek).isMark "," then
    let more ← many (!·.isMark ",") do
      let _ ← shift
      g.assignment inAllowed
    return spanning .sequenceExpression first more
  return first

def condition : Rule Node := do
  let first ← mark "("
  let inner ← g.expression true
  let _ ← mark ")"
  close .parenthesizedExpression first.start [inner]

def element : Rule Node := do
  let first ← peek
  if ← tryMark "..." then
    let inner ← g.assignment true
    close .spreadElement first.start [inner]
  else g.assignment true

def arguments : Rule Node := do
  let first ← mark "("
  let items ← listed ")" g.element
  close .arguments first.start items

def parameters : Rule Node := do
  let arguments ← g.arguments
  return { arguments with
    kind := .formalParameters
    children := arguments.children.map Node.toPattern }

/-- Statements in braces. An understood semicolon behind the closing brace belongs to the block. -/
def block (operatorMayFollow : Bool) : Rule Node := do
  let first ← mark "\x7b"
  let statements ← many (·.isMark "\x7d") g.statement
  let _ ← mark "\x7d"
  let _ ← tryUnderstood operatorMayFollow
  close .statementBlock first.start statements

/-- The parameters and the body of a function whose head began at `start`. -/
def functionFrom (kind : Kind) (start : Nat) (name : Option Node) (operatorMayFollow : Bool) :
    Rule Node := do
  let parameters ← g.parameters
  let body ← g.block operatorMayFollow
  close kind start
    (name.toList.map (·.as .name) ++ [parameters.as .parameters, body.as .body])

def propertyName : Rule Node := do
  match (← peek).sort with
  | .word => leaf .propertyIdentifier
  | .privateWord => leaf .privatePropertyIdentifier
  | .number => leaf .number
  | .quoted => leaf .string
  | _ =>
    let first ← mark "["
    let key ← g.assignment true
    let _ ← mark "]"
    close .computedPropertyName first.start [key]

def beginsProperty (token : Token) : Bool :=
  match token.sort with
  | .word | .privateWord | .number | .quoted => true
  | .mark => token.text == "[" || token.text == "*"
  | .ending => false

/-- Pass the words before the name of a property, and the star of a generator. A word is one of
    them only if a name follows it; in a class (`inClass`) also only if no semicolon is understood
    behind it. -/
def modifiers (words : List String) (inClass : Bool) : Nat → Rule Unit
  | 0 => return ()
  | bound + 1 => do
    let cursor ← get
    let token := cursor.token
    if token.isMark "*" then
      let _ ← shift
      modifiers words inClass bound
    else if token.sort == .word && words.contains token.text
        && beginsProperty (← peekSecond) && !(inClass && omitted false cursor.rest) then
      let _ ← shift
      modifiers words inClass bound
    else return ()

end Grammar

end Capabilities.Script
