import Capabilities.Script.Kind

/-!
# Script trees

`Node` is the tree a script is read into. A node knows its kind, its role below its parent, the
bytes of the text it covers, and, if it is a token, how it is written. Tables about a tree are
keyed by the identities of its nodes.

Comments are nodes of the tree and may stand anywhere; `Node.parts` is the children without them,
and every reading of a tree below goes through `parts` only. `Node.nodes` lists a subtree parents
first, and `Node.fold` gives a node a meaning from the meanings of its parts.
-/

namespace Capabilities.Script

/-- A node of a script tree. `lexeme` is the node's text if it is a single token and empty
    otherwise; `start` and `stop` are byte offsets into the text. -/
structure Node where
  id : Nat
  kind : Kind
  role : Option Role
  start : Nat
  stop : Nat
  lexeme : String
  children : List Node
deriving Repr

namespace Node

/-! ### Parts -/

def isComment (node : Node) : Bool := node.kind == .comment

def parts (node : Node) : List Node := node.children.filter (!·.isComment)

/-- The first child in a role. -/
def part? (node : Node) (role : Role) : Option Node :=
  node.children.find? (·.role == some role)

theorem mem_children_of_mem_parts {node child : Node} (h : child ∈ node.parts) :
    child ∈ node.children :=
  (List.mem_filter.1 h).1

theorem mem_children_of_part? {node child : Node} {role : Role}
    (h : node.part? role = some child) : child ∈ node.children :=
  List.mem_of_find?_eq_some h

/-! ### Induction -/

/-- What holds of a node whenever it holds of the node's children holds of every node. -/
theorem induction {P : Node → Prop}
    (step : ∀ node : Node, (∀ child ∈ node.children, P child) → P node)
    (node : Node) : P node :=
  Node.rec (motive_1 := P) (motive_2 := fun children => ∀ child ∈ children, P child)
    (fun id kind role start stop lexeme children ih =>
      step ⟨id, kind, role, start, stop, lexeme, children⟩ ih)
    (fun _ h => nomatch h)
    (fun head tail ihHead ihTail child h => by
      rcases List.mem_cons.1 h with rfl | h
      · exact ihHead
      · exact ihTail child h)
    node

/-! ### A subtree as a list -/

mutual
/-- The nodes of a subtree that are reached without entering a comment, parents first. -/
def nodes : Node → List Node
  | ⟨id, kind, role, start, stop, lexeme, children⟩ =>
    ⟨id, kind, role, start, stop, lexeme, children⟩ :: nodesOfAll children
/-- The nodes of the subtrees of a list of siblings, comments left out. -/
def nodesOfAll : List Node → List Node
  | [] => []
  | child :: rest => if child.isComment then nodesOfAll rest else nodes child ++ nodesOfAll rest
end

theorem nodesOfAll_eq (children : List Node) :
    nodesOfAll children = (children.filter (!·.isComment)).flatMap nodes := by
  induction children with
  | nil => rfl
  | cons child rest ih =>
    cases h : child.isComment <;> simp [nodesOfAll, h, ih]

theorem nodes_eq (node : Node) : node.nodes = node :: node.parts.flatMap nodes := by
  cases node
  simp [nodes, nodesOfAll_eq, parts]

/-! ### Meanings -/

mutual
/-- The meaning of a node, given how a node and its children with their meanings make one. -/
def fold {α : Type} (make : Node → List (Node × α) → α) : Node → α
  | ⟨id, kind, role, start, stop, lexeme, children⟩ =>
    make ⟨id, kind, role, start, stop, lexeme, children⟩ (foldAll make children)
def foldAll {α : Type} (make : Node → List (Node × α) → α) : List Node → List (Node × α)
  | [] => []
  | child :: rest => (child, fold make child) :: foldAll make rest
end

theorem foldAll_eq {α : Type} (make : Node → List (Node × α) → α) (children : List Node) :
    foldAll make children = children.map fun child => (child, fold make child) := by
  induction children with
  | nil => rfl
  | cons child rest ih => simp [foldAll, ih]

theorem fold_eq {α : Type} (make : Node → List (Node × α) → α) (node : Node) :
    node.fold make = make node (node.children.map fun child => (child, child.fold make)) := by
  cases node
  simp [fold, foldAll_eq]

end Node

end Capabilities.Script
