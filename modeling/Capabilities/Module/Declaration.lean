import Capabilities.Script.Name

/-!
# What a module declares

A module declares the capabilities it provides and consumes by assigning an array of strings to
a property of its entry function: `main.provides = ["fs"]`. The last such assignment counts,
wherever in the script it stands.
-/

namespace Capabilities.Module

open Script

inductive Direction where
  | provides | consumes
deriving DecidableEq, Repr

def Direction.property : Direction → String
  | .provides => "provides"
  | .consumes => "consumes"

/-- What a module declares in one direction. A declared list may be empty. -/
inductive Declaration where
  | declared (names : List String)
  | undeclared
deriving DecidableEq, Repr

def Declaration.names? : Declaration → Option (List String)
  | .declared names => some names
  | .undeclared => none

/-- The strings of an array that are not empty, in order; other elements are passed over. -/
def arrayNames (array : Node) : List String :=
  (array.parts.filterMap Node.stringValue?).filter (· != "")

/-- The names a node declares by itself: an assignment of an array to the direction's property of
    one of the owners. -/
def declaredNames? (direction : Direction) (owners : List String) (node : Node) :
    Option (List String) := do
  if node.kind != .assignmentExpression then failure
  let left ← node.part? .left
  if left.kind != .memberExpression then failure
  let object ← left.part? .object
  let property ← left.part? .property
  if object.kind != .identifier || !owners.contains object.lexeme then failure
  if property.identifierName? != some direction.property then failure
  let right ← node.part? .right
  if right.kind != .array then failure
  return arrayNames right

mutual
/-- What is declared when the script below a node has been read, if `found` was declared ahead of
    it: every declaration takes the place of the one before. -/
def declarationAfter (direction : Direction) (owners : List String) (found : Declaration) :
    Node → Declaration
  | ⟨id, kind, role, start, stop, lexeme, children⟩ =>
    let own :=
      match declaredNames? direction owners ⟨id, kind, role, start, stop, lexeme, children⟩ with
      | some names => .declared names
      | none => found
    declarationAfterAll direction owners own children
/-- What is declared when siblings have been read one after the other, comments left out. -/
def declarationAfterAll (direction : Direction) (owners : List String) (found : Declaration) :
    List Node → Declaration
  | [] => found
  | child :: rest =>
    if child.isComment then declarationAfterAll direction owners found rest
    else declarationAfterAll direction owners (declarationAfter direction owners found child) rest
end

/-- What the script below a node declares in one direction. -/
def declaration (direction : Direction) (owners : List String) (root : Node) : Declaration :=
  declarationAfter direction owners .undeclared root

end Capabilities.Module
