import Capabilities.Script.Node

/-!
# What may stand where in a script

The tree of a script does not hold just any nodes below one another: a function declaration stands
where a statement may stand and so is no part of an expression, a method stands in an object or in
the body of a class, what a call is given is a list of arguments or a template, and the parameters
of a function are a list of parameters. A tree in which each node stands where its kind may stand
is `Placed`. Nodes of other kinds, such as errors, may stand anywhere and hold anything.
-/

namespace Capabilities.Script

theorem Node.role_of_part? {node child : Node} {role : Role} (h : node.part? role = some child) :
    child.role = some role := by
  unfold Node.part? at h
  simpa using List.find?_some h

/-! ### Kinds -/

namespace Kind

/-- The kinds below which a statement may stand. -/
def holdsStatements : Kind → Bool
  | .program | .statementBlock | .exportStatement | .ifStatement | .elseClause | .forStatement
  | .forInStatement | .whileStatement | .doStatement | .withStatement | .labeledStatement
  | .switchCase | .switchDefault | .other => true
  | _ => false

/-- The kinds below which a method may stand. -/
def holdsMethods : Kind → Bool
  | .object | .objectPattern | .classBody | .other => true
  | _ => false

/-- Whether a node of a kind may stand in a role below a parent of another kind. -/
def holds (parent kind : Kind) (role : Option Role) : Bool :=
  (!kind.isFunctionDeclaration || parent.holdsStatements)
    && (kind != .methodDefinition || parent.holdsMethods)
    && (kind != .comment || role.isNone)
    && (role != some .arguments || kind == .arguments || kind == .templateString)
    && (role != some .parameters || kind == .formalParameters)

/-- What is known of a node that stands where it may. -/
theorem of_holds {parent kind : Kind} {role : Option Role} (h : parent.holds kind role = true) :
    (kind.isFunctionDeclaration = true → parent.holdsStatements = true) ∧
      (kind = .methodDefinition → parent.holdsMethods = true) ∧
      (kind = .comment → role = none) ∧
      (role = some .arguments → kind = .arguments ∨ kind = .templateString) ∧
      (role = some .parameters → kind = .formalParameters) := by
  unfold holds at h
  simp only [Bool.and_eq_true, Bool.or_eq_true, Bool.not_eq_true', bne_iff_ne, beq_iff_eq,
    Option.isNone_iff_eq_none] at h
  obtain ⟨⟨⟨⟨hdeclaration, hmethod⟩, hcomment⟩, harguments⟩, hparameters⟩ := h
  refine ⟨?_, ?_, ?_, ?_, ?_⟩
  · intro hkind
    exact hdeclaration.resolve_left (by simp [hkind])
  · intro hkind
    exact hmethod.resolve_left (not_not_intro hkind)
  · intro hkind
    exact hcomment.resolve_left (not_not_intro hkind)
  · intro hrole
    exact harguments.imp_left fun hopen => hopen.resolve_left (not_not_intro hrole)
  · intro hrole
    exact hparameters.resolve_left (not_not_intro hrole)

end Kind

/-- Something holds of a node and of all nodes below it. -/
inductive Throughout (P : Node → Prop) : Node → Prop
  | intro {node : Node} (here : P node)
      (below : ∀ child ∈ node.children, Throughout P child) : Throughout P node

namespace Throughout

variable {P Q : Node → Prop} {node child : Node}

theorem here (h : Throughout P node) : P node := by
  cases h with
  | intro here _ => exact here

theorem of_mem (h : Throughout P node) (hchild : child ∈ node.children) : Throughout P child := by
  cases h with
  | intro _ below => exact below child hchild

theorem mono (himp : ∀ node, P node → Q node) (h : Throughout P node) : Throughout Q node := by
  induction h with
  | intro here _ ih => exact .intro (himp _ here) ih

theorem of_mem_nodes (h : Throughout P node) : ∀ found ∈ node.nodes, Throughout P found := by
  induction node using Node.induction with
  | step node ih =>
    intro found hfound
    rw [Node.nodes_eq] at hfound
    rcases List.mem_cons.1 hfound with rfl | hfound
    · exact h
    · obtain ⟨part, hpart, hfound⟩ := List.mem_flatMap.1 hfound
      have hchild := Node.mem_children_of_mem_parts hpart
      exact ih part hchild (h.of_mem hchild) found hfound

end Throughout

/-- Comments stand aside: no comment fills a role. -/
def Aside : Node → Prop :=
  Throughout fun node => ∀ child ∈ node.children, child.kind = .comment → child.role = none

/-- Every node below stands where its kind may stand. -/
def Placed : Node → Prop :=
  Throughout fun node => ∀ child ∈ node.children, node.kind.holds child.kind child.role = true

/-- Every pair has a value. -/
def Paired : Node → Prop :=
  Throughout fun node => node.kind = .pair → (node.part? .value).isSome = true

theorem Aside.of_mem {node child : Node} (h : Aside node) (hchild : child ∈ node.children) :
    Aside child := Throughout.of_mem h hchild

theorem Aside.of_mem_nodes {node : Node} (h : Aside node) : ∀ found ∈ node.nodes, Aside found :=
  Throughout.of_mem_nodes h

theorem Placed.holds {node child : Node} (h : Placed node) (hchild : child ∈ node.children) :
    node.kind.holds child.kind child.role = true := h.here child hchild

theorem Placed.of_mem {node child : Node} (h : Placed node) (hchild : child ∈ node.children) :
    Placed child := Throughout.of_mem h hchild

theorem Placed.of_mem_nodes {node : Node} (h : Placed node) : ∀ found ∈ node.nodes, Placed found :=
  Throughout.of_mem_nodes h

theorem Placed.aside {node : Node} (h : Placed node) : Aside node :=
  h.mono fun _ hholds child hchild => (Kind.of_holds (hholds child hchild)).2.2.1

end Capabilities.Script
