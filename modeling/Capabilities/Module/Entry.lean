import Capabilities.Script.Name

/-!
# Entry functions

A module's entry function receives what the module consumes and hands over what it provides:
`function main(options, imports, register)`. It is a function declaration of a known name with
three parameters, the second bound to `imports` and the third to `register`, at any depth.
-/

namespace Capabilities.Module

open Script

def importsParameter : String := "imports"

def registerParameter : String := "register"

/-- An entry function and the name it is declared under. -/
structure Entry where
  node : Node
  name : String
deriving Repr

def Entry.body? (entry : Entry) : Option Node := entry.node.part? .body

def Entry.ofNode? (names : List String) (node : Node) : Option Entry := do
  if node.kind != .functionDeclaration then failure
  let name ← node.nameOf? .name
  if !names.contains name then failure
  match node.parameterNodes with
  | [_, imports, register] =>
    if imports.parameterName? == some importsParameter
        && register.parameterName? == some registerParameter then
      return ⟨node, name⟩
    else failure
  | _ => failure

/-- All entry functions below a node, outer ones first. -/
def entries (names : List String) (root : Node) : List Entry :=
  root.nodes.filterMap (Entry.ofNode? names)

/-- A variable of an entry function that holds one of its imports. -/
structure ImportAlias where
  localName : String
  capability : String
deriving DecidableEq, Repr

/-- The import a declarator gives a name: `fs = imports.fs`. -/
def importAlias? (declarator : Node) : Option ImportAlias := do
  if declarator.kind != .variableDeclarator then failure
  let localName ← declarator.nameOf? .name
  let value ← declarator.part? .value
  if value.kind != .memberExpression then failure
  let object ← value.part? .object
  if object.kind != .identifier || object.lexeme != importsParameter then failure
  let capability ← value.nameOf? .property
  return ⟨localName, capability⟩

def declaresVariables (statement : Node) : Bool :=
  statement.kind == .variableDeclaration || statement.kind == .lexicalDeclaration

/-- The imports that declarations directly in the body of an entry function give names to. -/
def Entry.importAliases (entry : Entry) : List ImportAlias :=
  match entry.body? with
  | some body =>
    (body.parts.filter declaresVariables).flatMap fun statement =>
      statement.parts.filterMap importAlias?
  | none => []

/-! ### Calls -/

/-- A stack with the parts of a node pushed onto it, the last one first. -/
def pushParts (node : Node) (stack : List Node) : List Node :=
  node.parts.reverse.foldl (fun stack part => part :: stack) stack

theorem flatMap_nodes_pushParts (node : Node) (stack : List Node) :
    (pushParts node stack).flatMap Node.nodes
      = node.parts.flatMap Node.nodes ++ stack.flatMap Node.nodes := by
  simp [pushParts]

/-- The calls below the nodes of a stack, behind those found so far. The first part of a node comes
    to lie on top, so what is below a node is visited before what was on the stack. -/
def callsFrom (found : List Node) : List Node → List Node
  | [] => found
  | node :: stack =>
    if node.kind == .callExpression then callsFrom (found ++ [node]) (pushParts node stack)
    else callsFrom found (pushParts node stack)
termination_by stack => (stack.flatMap Node.nodes).length
decreasing_by
  -- what is below the stack is visited still, and the node on top is not
  all_goals
    rw [flatMap_nodes_pushParts, List.flatMap_cons, Node.nodes_eq]
    simp

/-- All calls in the subtree of a node, outer ones first. -/
def calls (node : Node) : List Node := callsFrom [] [node]

theorem callsFrom_eq (found stack : List Node) :
    callsFrom found stack =
      found ++ (stack.flatMap Node.nodes).filter (·.kind == .callExpression) := by
  fun_induction callsFrom found stack with
  | case1 found => simp
  | case2 found node stack hcall ih =>
    rw [ih, flatMap_nodes_pushParts, List.flatMap_cons, Node.nodes_eq node]
    simp [hcall]
  | case3 found node stack hcall ih =>
    rw [ih, flatMap_nodes_pushParts, List.flatMap_cons, Node.nodes_eq node]
    simp [hcall]

theorem calls_eq (node : Node) :
    calls node = node.nodes.filter (·.kind == .callExpression) := by
  rw [calls, callsFrom_eq, List.flatMap_singleton, List.nil_append]

end Capabilities.Module
