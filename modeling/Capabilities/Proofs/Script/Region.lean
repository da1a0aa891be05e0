import Capabilities.Proofs.Script.Placed
import Capabilities.Script.Name
import Mathlib.Data.List.Nodup
import Mathlib.Data.List.Pairwise

/-!
# What belongs to which function

A function keeps to itself what is declared and returned inside it. Of all forms of functions only
a method of a class does not: a method keeps what is inside it where it stands in an object, and
elsewhere all of it belongs to what is around the class.

`Owns` says which nodes belong to a function or to the whole script, down to the functions that
keep their own; `Returns` says the same of the nodes that may return something from it, which are
those of its body and the parameters of functions in it. From these it is read off which names a
function declares and which expressions give it its result.
-/

namespace Capabilities.Script.Node

/-- Whether a node below a parent is a function that keeps what is inside it. -/
def keeps (parent node : Node) : Bool :=
  node.kind.isFunction && (node.kind != .methodDefinition || parent.kind == .object)

/-- A part of a node of a tree. -/
structure Below (root parent node : Node) : Prop where
  among : parent ∈ root.nodes
  part : node ∈ parent.parts

/-- The nodes that belong to a function or a script, each behind its parent. -/
inductive Owns (owner : Node) : Node → Node → Prop
  | part {node : Node} (hnode : node ∈ owner.parts) : Owns owner owner node
  | inner {parent node child : Node} (h : Owns owner parent node)
      (hkeeps : keeps parent node = false) (hchild : child ∈ node.parts) : Owns owner node child

/-- The nodes from which a function may return, each behind its parent. What stands among the
    parameters of a function inside is not in the body of that one. -/
inductive Returns (function : Node) : Node → Node → Prop
  | body {node : Node} (hnode : function.part? .body = some node) : Returns function function node
  | parameter {parent other node : Node} {role : Role} (h : Returns function parent other)
      (hkeeps : keeps parent other = true) (hrole : role = .parameter ∨ role = .parameters)
      (hnode : other.part? role = some node) : Returns function other node
  | inner {parent node child : Node} (h : Returns function parent node)
      (hkeeps : keeps parent node = false) (hchild : child ∈ node.parts) :
      Returns function node child

/-- The names that a function or a script declares, each with the node that declares it: the
    function's own, unless it is declared around it, its parameters, and the variables and functions
    declared in what belongs to it. -/
inductive Declares (owner : Node) : Node → String → Prop
  | own {name : String} (hkind : owner.kind.isFunction = true)
      (hdeclared : owner.kind.isFunctionDeclaration = false)
      (hname : owner.nameOf? .name = some name) : Declares owner owner name
  | parameter {node : Node} {name : String} (hnode : node ∈ owner.parameterNodes)
      (hname : node.parameterName? = some name) : Declares owner node name
  | variable {parent node : Node} {name : String} (h : Owns owner parent node)
      (hkind : node.kind = .variableDeclarator ∨ parent.kind = .variableDeclaration)
      (hname : node.nameOf? .name = some name) : Declares owner node name
  | function {parent node : Node} {name : String} (h : Owns owner parent node)
      (hkind : node.kind.isFunctionDeclaration = true) (hname : node.nameOf? .name = some name) :
      Declares owner node name

/-- The expressions that a function has its result from: what its return statements return, and a
    body that is an expression. -/
inductive Answers (function : Node) : Node → Prop
  | statement {parent node answer : Node} (h : Returns function parent node)
      (hkind : node.kind = .returnStatement) (hanswer : node.parts.head? = some answer) :
      Answers function answer
  | body {answer : Node} (hbody : function.part? .body = some answer)
      (hkind : answer.kind ≠ .statementBlock) : Answers function answer

/-- The names that a script assigns to. -/
inductive Assigns (root : Node) : String → Prop
  | target {parent node : Node} (h : Below root parent node)
      (hparent : parent.kind = .assignmentExpression) (hrole : node.role = some .left)
      (hkind : node.kind = .identifier) : Assigns root node.lexeme

/-- The nodes that have a scope: the script, and the functions in it that keep what is inside. -/
inductive Scoped (root : Node) : Node → Prop
  | script : Scoped root root
  | function {parent node : Node} (h : Below root parent node) (hkeeps : keeps parent node = true) :
      Scoped root node

/-- The variables that a script may have: what the owner of a scope declares is a variable of this
    scope, and what is assigned to may become one of the script. -/
inductive Rightful (root : Node) : Nat → String → Prop
  | declared {owner node : Node} {name : String} (h : Scoped root owner)
      (hname : Declares owner node name) : Rightful root owner.id name
  | assigned {name : String} (h : Assigns root name) : Rightful root root.id name

/-! ### Parts -/

variable {root parent node child : Node} {role : Role}

theorem self_mem_nodes (root : Node) : root ∈ root.nodes := by
  rw [nodes_eq]
  exact List.mem_cons_self

/-- The parts of what is in a tree are in it. -/
theorem mem_nodes_of_mem_parts (h : node ∈ root.nodes) (hchild : child ∈ node.parts) :
    child ∈ root.nodes := by
  induction root using Node.induction with
  | step root ih =>
    rw [nodes_eq] at h ⊢
    refine List.mem_cons_of_mem _ ?_
    rcases List.mem_cons.1 h with rfl | h
    · exact List.mem_flatMap.2 ⟨child, hchild, self_mem_nodes child⟩
    · obtain ⟨part, hpart, hnode⟩ := List.mem_flatMap.1 h
      exact List.mem_flatMap.2 ⟨part, hpart, ih part (mem_children_of_mem_parts hpart) hnode⟩

theorem Below.mem_nodes (h : Below root parent node) : node ∈ root.nodes :=
  mem_nodes_of_mem_parts h.among h.part

theorem isFunction_of_keeps (h : keeps parent node = true) : node.kind.isFunction = true := by
  unfold keeps at h
  rw [Bool.and_eq_true] at h
  exact h.1

/-- Where comments stand aside, what fills a role is no comment. -/
theorem mem_parts_of_part? (h : Aside node) (hchild : node.part? role = some child) :
    child ∈ node.parts := by
  have hmem := mem_children_of_part? hchild
  refine List.mem_filter.2 ⟨hmem, ?_⟩
  have hcomment := h.here child hmem
  rw [role_of_part? hchild] at hcomment
  simpa [isComment] using hcomment

/-- No function declaration stands below a node that holds no statements. -/
theorem not_declaration_of_mem (h : Placed node) (hchild : child ∈ node.parts)
    (hkind : node.kind.holdsStatements = false) : child.kind.isFunctionDeclaration = false := by
  obtain ⟨hdeclaration, -⟩ := Kind.of_holds (h.holds (mem_children_of_mem_parts hchild))
  simpa [hkind] using hdeclaration

/-- No method stands below a node that holds none. -/
theorem not_method_of_mem (h : Placed node) (hchild : child ∈ node.parts)
    (hkind : node.kind.holdsMethods = false) : child.kind ≠ .methodDefinition := by
  obtain ⟨-, hmethod, -⟩ := Kind.of_holds (h.holds (mem_children_of_mem_parts hchild))
  simpa [hkind] using hmethod

/-- What a call is given is a list or a template. -/
theorem kind_of_arguments (h : Placed node) (hchild : node.part? .arguments = some child) :
    child.kind = .arguments ∨ child.kind = .templateString := by
  obtain ⟨-, -, -, harguments, -⟩ := Kind.of_holds (h.holds (mem_children_of_part? hchild))
  exact harguments (role_of_part? hchild)

/-- The parameters of a function with parentheses are a list. -/
theorem kind_of_parameters (h : Placed node) (hchild : node.part? .parameters = some child) :
    child.kind = .formalParameters := by
  obtain ⟨-, -, -, -, hparameters⟩ := Kind.of_holds (h.holds (mem_children_of_part? hchild))
  exact hparameters (role_of_part? hchild)

/-! ### What is inside a function

A tree in which no node is twice has one parent for each node. So what belongs to a function, or
may return from it, is reached from it on one way only, and this does not lead into a function that
keeps what is inside.
-/

/-- A node stands below another, be it deeper than as a part. -/
def Inside (node below : Node) : Prop := ∃ part ∈ node.parts, below ∈ part.nodes

variable {owner function body other : Node}

theorem inside_of_mem_parts (hparent : parent ∈ node.nodes) (hchild : child ∈ parent.parts) :
    Inside node child := by
  rw [nodes_eq] at hparent
  rcases List.mem_cons.1 hparent with rfl | hparent
  · exact ⟨child, hchild, self_mem_nodes child⟩
  · obtain ⟨part, hpart, hmem⟩ := List.mem_flatMap.1 hparent
    exact ⟨part, hpart, mem_nodes_of_mem_parts hmem hchild⟩

theorem Inside.mem_nodes (h : Inside node child) : child ∈ node.nodes := by
  obtain ⟨part, hpart, hmem⟩ := h
  rw [nodes_eq]
  exact List.mem_cons_of_mem _ (List.mem_flatMap.2 ⟨part, hpart, hmem⟩)

/-- What is in a tree is the tree, or it is a part of something in it. -/
theorem eq_or_part_of_mem_nodes (h : child ∈ node.nodes) :
    child = node ∨ ∃ parent ∈ node.nodes, child ∈ parent.parts := by
  induction node using Node.induction with
  | step node ih =>
    rw [nodes_eq] at h
    refine (List.mem_cons.1 h).imp_right fun hbelow => ?_
    obtain ⟨part, hpart, hmem⟩ := List.mem_flatMap.1 hbelow
    rcases ih part (mem_children_of_mem_parts hpart) hmem with rfl | ⟨parent, hparent, hchild⟩
    · exact ⟨node, self_mem_nodes node, hpart⟩
    · exact ⟨parent, Inside.mem_nodes ⟨part, hpart, hparent⟩, hchild⟩

/-- The nodes of what is in a tree are in it. -/
theorem mem_nodes_trans (hnode : node ∈ root.nodes) (hchild : child ∈ node.nodes) :
    child ∈ root.nodes := by
  induction root using Node.induction with
  | step root ih =>
    rw [nodes_eq] at hnode
    rcases List.mem_cons.1 hnode with rfl | hnode
    · exact hchild
    · obtain ⟨part, hpart, hmem⟩ := List.mem_flatMap.1 hnode
      exact Inside.mem_nodes ⟨part, hpart, ih part (mem_children_of_mem_parts hpart) hmem⟩

/-- In a tree in which no node is twice, a node is a part of one parent only. -/
theorem parent_unique (hnodup : root.nodes.Nodup) (h : Below root parent node)
    (hother : Below root other node) : parent = other := by
  induction root using Node.induction with
  | step root ih =>
    have hdivided := hnodup
    rw [nodes_eq, List.nodup_cons] at hdivided
    obtain ⟨hparts, hapart⟩ := List.nodup_flatMap.1 hdivided.2
    -- a node below two parts would be twice in the tree
    have hsame : ∀ first ∈ root.parts, ∀ second ∈ root.parts, node ∈ first.nodes →
        node ∈ second.nodes → first = second := by
      intro first hfirst second hsecond hmem hmem'
      by_contra hne
      have hsymm : Std.Symm (Function.onFun List.Disjoint nodes) :=
        ⟨fun _ _ hdisjoint _ hsecond hfirst => hdisjoint hfirst hsecond⟩
      exact hapart.forall hfirst hsecond hne hmem hmem'
    -- a part of the whole tree is no part of anything below it
    have htop : ∀ {around : Node}, node ∈ root.parts → around ∈ root.parts.flatMap nodes →
        node ∉ around.parts := by
      intro around hnode haround hpart
      obtain ⟨part, hmem, haround⟩ := List.mem_flatMap.1 haround
      have hbelow := inside_of_mem_parts haround hpart
      obtain rfl := hsame node hnode part hmem (self_mem_nodes node) hbelow.mem_nodes
      have hown := hparts node hnode
      rw [nodes_eq, List.nodup_cons] at hown
      exact hown.1 (List.mem_flatMap.2 hbelow)
    have hparent := h.among
    have hother' := hother.among
    rw [nodes_eq] at hparent hother'
    rcases List.mem_cons.1 hparent with rfl | hparent
    · rcases List.mem_cons.1 hother' with rfl | hother'
      · rfl
      · exact absurd hother.part (htop h.part hother')
    · rcases List.mem_cons.1 hother' with rfl | hother'
      · exact absurd h.part (htop hother.part hparent)
      · obtain ⟨first, hfirst, hparent⟩ := List.mem_flatMap.1 hparent
        obtain ⟨second, hsecond, hother'⟩ := List.mem_flatMap.1 hother'
        obtain rfl := hsame first hfirst second hsecond
          (mem_nodes_of_mem_parts hparent h.part) (mem_nodes_of_mem_parts hother' hother.part)
        exact ih first (mem_children_of_mem_parts hfirst) (hparts first hfirst)
          ⟨hparent, h.part⟩ ⟨hother', hother.part⟩

theorem Scoped.mem_nodes (h : Scoped root owner) : owner ∈ root.nodes := by
  cases h with
  | script => exact self_mem_nodes root
  | function h _ => exact h.mem_nodes

theorem Owns.toBelow (h : Owns owner parent node) (howner : owner ∈ root.nodes) :
    Below root parent node := by
  induction h with
  | part hnode => exact ⟨howner, hnode⟩
  | inner _ _ hchild ih => exact ⟨ih.mem_nodes, hchild⟩

theorem Returns.toBelow (h : Returns owner parent node) (hplaced : Placed root)
    (howner : owner ∈ root.nodes) : Below root parent node := by
  induction h with
  | body hnode => exact ⟨howner, mem_parts_of_part? (hplaced.of_mem_nodes _ howner).aside hnode⟩
  | parameter _ _ _ hnode ih =>
    exact ⟨ih.mem_nodes, mem_parts_of_part? (hplaced.of_mem_nodes _ ih.mem_nodes).aside hnode⟩
  | inner _ _ hchild ih => exact ⟨ih.mem_nodes, hchild⟩

/-- What is around a node inside a function is the function or inside it too. -/
theorem Inside.outward (h : Inside function node) (hnodup : root.nodes.Nodup)
    (hfunction : function ∈ root.nodes) (hbelow : Below root parent node) :
    parent = function ∨ Inside function parent := by
  obtain ⟨part, hpart, hmem⟩ := h
  rcases eq_or_part_of_mem_nodes hmem with rfl | ⟨last, hlast, hinner⟩
  · exact Or.inl (parent_unique hnodup hbelow ⟨hfunction, hpart⟩)
  · have hin : last ∈ function.nodes := Inside.mem_nodes ⟨part, hpart, hlast⟩
    rw [parent_unique hnodup hbelow ⟨mem_nodes_trans hfunction hin, hinner⟩]
    exact Or.inr ⟨part, hpart, hlast⟩

theorem Inside.mem_of_parent (h : Inside function node) (hnodup : root.nodes.Nodup)
    (hfunction : function ∈ root.nodes) (hbelow : Below root parent node) :
    parent ∈ function.nodes :=
  (h.outward hnodup hfunction hbelow).elim (fun hsame => hsame ▸ self_mem_nodes _) Inside.mem_nodes

/-- What is inside a function that keeps its own belongs to the function or to one inside it. -/
theorem Owns.inside (h : Owns owner parent node) (howner : owner ∈ root.nodes)
    (hnodup : root.nodes.Nodup) (hfunction : Below root other function)
    (hkeeps : keeps other function = true) (hnode : Inside function node) :
    owner ∈ function.nodes := by
  induction h with
  | part hpart => exact hnode.mem_of_parent hnodup hfunction.mem_nodes ⟨howner, hpart⟩
  | @inner around middle child h hkept hchild ih =>
    have hbelow := h.toBelow howner
    rcases hnode.outward hnodup hfunction.mem_nodes ⟨hbelow.mem_nodes, hchild⟩ with rfl | hmiddle
    · rw [parent_unique hnodup hbelow hfunction, hkeeps] at hkept
      cases hkept
    · exact ih hmiddle

/-- What is declared inside a function that keeps its own is declared by the function or by one
    inside it. -/
theorem Declares.inside {name : String} (h : Declares owner node name) (hplaced : Placed root)
    (howner : owner ∈ root.nodes) (hnodup : root.nodes.Nodup)
    (hfunction : Below root other function) (hkeeps : keeps other function = true)
    (hnode : Inside function node) : owner ∈ function.nodes := by
  cases h with
  | own => exact hnode.mem_nodes
  | «variable» h => exact h.inside howner hnodup hfunction hkeeps hnode
  | function h => exact h.inside howner hnodup hfunction hkeeps hnode
  | parameter hparameter =>
    have hpart : ∀ {child role}, owner.part? role = some child → Below root owner child :=
      fun hchild => ⟨howner, mem_parts_of_part? (hplaced.of_mem_nodes _ howner).aside hchild⟩
    unfold parameterNodes at hparameter
    split at hparameter
    · rename_i single hsingle
      obtain rfl := List.mem_singleton.1 hparameter
      exact hnode.mem_of_parent hnodup hfunction.mem_nodes (hpart hsingle)
    · split at hparameter
      · rename_i list hlist
        have hbelow := hpart hlist
        -- the list of parameters is no function
        rcases hnode.outward hnodup hfunction.mem_nodes ⟨hbelow.mem_nodes, hparameter⟩ with
          rfl | hinside
        · have hkind := isFunction_of_keeps hkeeps
          rw [kind_of_parameters (hplaced.of_mem_nodes _ howner) hlist] at hkind
          cases hkind
        · exact hinside.mem_of_parent hnodup hfunction.mem_nodes hbelow
      · cases hparameter

/-- What is in the body of a function that keeps its own returns from the function or from one
    inside it. -/
theorem Returns.inside (h : Returns owner parent node) (hplaced : Placed root)
    (howner : owner ∈ root.nodes) (hnodup : root.nodes.Nodup)
    (hfunction : Below root other function) (hkeeps : keeps other function = true)
    (hbody : function.part? .body = some body) (hnode : node ∈ body.nodes) :
    owner ∈ function.nodes := by
  have hpart := mem_parts_of_part? (hplaced.of_mem_nodes _ hfunction.mem_nodes).aside hbody
  have hbelow : Below root function body := ⟨hfunction.mem_nodes, hpart⟩
  -- whatever is around a node of the body is the function or in the body
  have haround : ∀ {around inner : Node}, Below root around inner → inner ∈ body.nodes →
      inner = body ∧ around = function ∨ around ∈ body.nodes := by
    intro around inner hinner hmem
    rcases eq_or_part_of_mem_nodes hmem with rfl | ⟨last, hlast, hin⟩
    · exact Or.inl ⟨rfl, parent_unique hnodup hinner hbelow⟩
    · refine Or.inr ?_
      exact parent_unique hnodup hinner ⟨mem_nodes_trans hbelow.mem_nodes hlast, hin⟩ ▸ hlast
  have hinside : ∀ {inner : Node}, inner ∈ body.nodes → inner ∈ function.nodes :=
    fun hmem => Inside.mem_nodes ⟨body, hpart, hmem⟩
  induction h with
  | @body inner hinner =>
    rcases haround ((Returns.body hinner).toBelow hplaced howner) hnode with ⟨-, rfl⟩ | haround
    · exact self_mem_nodes _
    · exact hinside haround
  | @parameter around middle inner role h hkept hrole hinner ih =>
    rcases haround ((Returns.parameter h hkept hrole hinner).toBelow hplaced howner) hnode with
      ⟨rfl, -⟩ | haround
    · have hsame := (role_of_part? hinner).symm.trans (role_of_part? hbody)
      rcases hrole with rfl | rfl <;> cases hsame
    · exact ih haround
  | @inner around middle child h hkept hchild ih =>
    rcases haround ((Returns.inner h hkept hchild).toBelow hplaced howner) hnode with
      ⟨-, rfl⟩ | haround
    · rw [parent_unique hnodup (h.toBelow hplaced howner) hfunction, hkeeps] at hkept
      cases hkept
    · exact ih haround

end Capabilities.Script.Node
