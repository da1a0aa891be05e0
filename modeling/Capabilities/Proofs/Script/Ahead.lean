import Capabilities.Proofs.Script.Region
import Mathlib.Data.List.Flatten

/-!
# What is declared ahead of a body

The functions and variables that a body declares are known in the whole body, wherever it declares
them. They are found by going through its statements, but not into functions and classes, which
keep what they declare to themselves, nor into the values of variables.

`Node.ahead` lists what is announced in this way, in the order of the source.
-/

namespace Capabilities.Script

/-- What is known ahead of a body: a declared function, or the variable of a declarator. -/
inductive Announcement where
  | function (node : Node)
  | declarator (node : Node)

namespace Announcement

def node : Announcement → Node
  | .function node => node
  | .declarator node => node

def name? (item : Announcement) : Option String := item.node.nameOf? .name

def function? : Announcement → Option Node
  | .function node => some node
  | .declarator _ => none

end Announcement

/-- The kinds of nodes that are not gone through. -/
def Kind.closes (kind : Kind) : Bool :=
  kind.isFunction || kind == .classDeclaration || kind == .classExpression
    || kind == .variableDeclaration

theorem Kind.closes_of_isFunction {kind : Kind} (h : kind.isFunction = true) :
    kind.closes = true := by
  simp [closes, h]

theorem Kind.isFunction_of_isFunctionDeclaration {kind : Kind}
    (h : kind.isFunctionDeclaration = true) : kind.isFunction = true := by
  revert h
  cases kind <;> decide

namespace Node

/-- What a part announces, given what is announced in it. -/
def announced (part : Node) (inner : List Announcement) : List Announcement :=
  if part.kind.isFunctionDeclaration then [.function part]
  else if part.kind = .variableDeclaration then part.parts.map .declarator
  else if part.kind.closes then []
  else inner

/-- What is known ahead of a body, in the order of the source. -/
def ahead (body : Node) : List Announcement :=
  body.fold fun _ children =>
    (children.filter (!·.1.isComment)).flatMap fun child => announced child.1 child.2

theorem ahead_eq (body : Node) :
    body.ahead = body.parts.flatMap fun part => announced part part.ahead := by
  rw [ahead, fold_eq]
  unfold parts
  rw [List.filter_map, List.flatMap_map]
  rfl

/-- The nodes that are reached from a body without passing through a function, a class or a
    declaration of variables. -/
inductive Reached (body : Node) : Node → Prop
  | self : Reached body body
  | part {node child : Node} (h : Reached body node) (hchild : child ∈ node.parts)
      (hopen : child.kind.closes = false) : Reached body child

/-- What is announced in a body, by the parts of the nodes that are reached. -/
inductive Announces (body : Node) : Announcement → Prop
  | function {parent node : Node} (h : Reached body parent) (hnode : node ∈ parent.parts)
      (hkind : node.kind.isFunctionDeclaration = true) : Announces body (.function node)
  | declarator {parent declaration declarator : Node} (h : Reached body parent)
      (hdeclaration : declaration ∈ parent.parts)
      (hkind : declaration.kind = .variableDeclaration)
      (hdeclarator : declarator ∈ declaration.parts) : Announces body (.declarator declarator)

variable {body node child part : Node} {item : Announcement}

theorem Reached.trans {middle : Node} (h : Reached body middle) (h' : Reached middle node) :
    Reached body node := by
  induction h' with
  | self => exact h
  | part _ hchild hopen ih => exact .part ih hchild hopen

theorem Announces.of_reached (h : Reached body node) (h' : Announces node item) :
    Announces body item := by
  cases h' with
  | function hreached hnode hkind => exact .function (h.trans hreached) hnode hkind
  | declarator hreached hdeclaration hkind hdeclarator =>
    exact .declarator (h.trans hreached) hdeclaration hkind hdeclarator

/-- What is reached is the body, or it is reached from a part that is gone through. -/
theorem Reached.eq_or (h : Reached body node) :
    node = body ∨ ∃ part ∈ body.parts, part.kind.closes = false ∧ Reached part node := by
  induction h with
  | self => exact Or.inl rfl
  | part _ hchild hopen ih =>
    rcases ih with rfl | ⟨part, hpart, hpartOpen, hreached⟩
    · exact Or.inr ⟨_, hchild, hopen, .self⟩
    · exact Or.inr ⟨part, hpart, hpartOpen, .part hreached hchild hopen⟩

theorem announced_of_declaration {inner : List Announcement}
    (h : part.kind.isFunctionDeclaration = true) : announced part inner = [.function part] :=
  if_pos h

theorem announced_of_variables {inner : List Announcement}
    (h : part.kind = .variableDeclaration) :
    announced part inner = part.parts.map .declarator := by
  unfold announced
  rw [if_neg (by rw [h]; decide), if_pos h]

theorem announced_of_open {inner : List Announcement} (h : part.kind.closes = false) :
    announced part inner = inner := by
  unfold announced
  rw [if_neg, if_neg, if_neg (by rw [h]; decide)]
  · intro hkind
    rw [hkind] at h
    cases h
  · intro hkind
    rw [Kind.closes_of_isFunction (Kind.isFunction_of_isFunctionDeclaration hkind)] at h
    cases h

theorem announced_of_closed {inner : List Announcement} (h : part.kind.closes = true)
    (hfunction : part.kind.isFunctionDeclaration = false)
    (hvariables : part.kind ≠ .variableDeclaration) : announced part inner = [] := by
  unfold announced
  rw [if_neg (by rw [hfunction]; decide), if_neg hvariables, if_pos h]

/-- The list has just what is announced: induction on the tree, by what becomes of each part. -/
theorem mem_ahead_iff : item ∈ body.ahead ↔ Announces body item := by
  induction body using Node.induction generalizing item with
  | step body ih =>
    rw [ahead_eq, List.mem_flatMap]
    constructor
    · rintro ⟨part, hpart, hitem⟩
      by_cases hfunction : part.kind.isFunctionDeclaration = true
      · rw [announced_of_declaration hfunction] at hitem
        rw [List.mem_singleton.1 hitem]
        exact .function .self hpart hfunction
      by_cases hvariables : part.kind = .variableDeclaration
      · rw [announced_of_variables hvariables] at hitem
        obtain ⟨declarator, hdeclarator, rfl⟩ := List.mem_map.1 hitem
        exact .declarator .self hpart hvariables hdeclarator
      cases hcloses : part.kind.closes with
      | true =>
        rw [announced_of_closed hcloses (Bool.eq_false_iff.2 hfunction) hvariables] at hitem
        cases hitem
      | false =>
        rw [announced_of_open hcloses] at hitem
        exact ((ih part (mem_children_of_mem_parts hpart)).1 hitem).of_reached
          (.part .self hpart hcloses)
    · -- what is not announced by a part itself is announced in a part that is gone through
      have hinner : ∀ part ∈ body.parts, part.kind.closes = false → Announces part item →
          ∃ part ∈ body.parts, item ∈ announced part part.ahead := by
        intro part hpart hopen hannounces
        refine ⟨part, hpart, ?_⟩
        rw [announced_of_open hopen]
        exact (ih part (mem_children_of_mem_parts hpart)).2 hannounces
      intro h
      cases h with
      | @function parent node h hnode hkind =>
        rcases h.eq_or with rfl | ⟨part, hpart, hopen, hreached⟩
        · refine ⟨node, hnode, ?_⟩
          rw [announced_of_declaration hkind]
          exact List.mem_singleton_self _
        · exact hinner part hpart hopen (.function hreached hnode hkind)
      | @declarator parent declaration declarator h hdeclaration hkind hdeclarator =>
        rcases h.eq_or with rfl | ⟨part, hpart, hopen, hreached⟩
        · refine ⟨declaration, hdeclaration, ?_⟩
          rw [announced_of_variables hkind]
          exact List.mem_map_of_mem hdeclarator
        · exact hinner part hpart hopen (.declarator hreached hdeclaration hkind hdeclarator)

/-- What is announced stands in the order of the source. -/
theorem sublist_ahead (body : Node) : (body.ahead.map Announcement.node).Sublist body.nodes := by
  induction body using Node.induction with
  | step body ih =>
    rw [ahead_eq, nodes_eq, List.map_flatMap]
    refine .cons _ (List.Sublist.flatMap_right _ fun part hpart => ?_)
    unfold announced
    split
    · exact List.singleton_sublist.2 (self_mem_nodes part)
    · split
      · have hparts :
            (part.parts.flatMap fun child => [child]).Sublist (part.parts.flatMap nodes) :=
          List.Sublist.flatMap_right _ fun child _ =>
            List.singleton_sublist.2 (self_mem_nodes child)
        rw [List.flatMap_singleton'] at hparts
        rw [List.map_map, nodes_eq]
        exact .cons _ ((List.map_id part.parts).symm ▸ hparts)
      · split
        · exact List.nil_sublist _
        · exact ih part (mem_children_of_mem_parts hpart)

theorem sublist_functions (body : Node) :
    (body.ahead.filterMap Announcement.function?).Sublist body.nodes := by
  have hsublist : ∀ items : List Announcement,
      (items.filterMap Announcement.function?).Sublist (items.map Announcement.node) := by
    intro items
    induction items with
    | nil => exact List.Sublist.slnil
    | cons item rest ih =>
      cases item with
      | function node => exact ih.cons_cons node
      | declarator node => exact ih.cons node
  exact (hsublist body.ahead).trans (sublist_ahead body)

/-! ### What is reached is in no function -/

theorem Reached.mem_nodes (h : Reached body node) : node ∈ body.nodes := by
  induction h with
  | self => exact self_mem_nodes body
  | part _ hchild _ ih => exact mem_nodes_of_mem_parts ih hchild

/-- What is below a node does not have the node below it. -/
theorem Inside.not_mem_nodes (h : Inside body node) (hnodup : body.nodes.Nodup) :
    body ∉ node.nodes := by
  obtain ⟨part, hpart, hnode⟩ := h
  rw [nodes_eq, List.nodup_cons] at hnodup
  exact fun hbody => hnodup.1 (List.mem_flatMap.2 ⟨part, hpart, mem_nodes_trans hnode hbody⟩)

theorem Reached.not_mem_nodes {function : Node} (h : Reached body node)
    (hnodup : body.nodes.Nodup) (hfunction : Inside body function)
    (hkind : function.kind.isFunction = true) : node ∉ function.nodes := by
  induction h with
  | self => exact hfunction.not_mem_nodes hnodup
  | @part parent child h hchild hopen ih =>
    intro hmem
    rw [nodes_eq] at hmem
    rcases List.mem_cons.1 hmem with rfl | hmem
    · rw [Kind.closes_of_isFunction hkind] at hopen
      cases hopen
    · have hinside : Inside function child := List.mem_flatMap.1 hmem
      exact ih (hinside.mem_of_parent hnodup hfunction.mem_nodes ⟨h.mem_nodes, hchild⟩)

theorem inside_of_mem_ahead (h : .function node ∈ body.ahead) : Inside body node := by
  cases mem_ahead_iff.1 h with
  | function h hnode _ => exact inside_of_mem_parts h.mem_nodes hnode

/-- A function that is announced is inside no function in the body. -/
theorem not_inside_of_mem_ahead {function : Node} (h : .function node ∈ body.ahead)
    (hnodup : body.nodes.Nodup) (hfunction : Inside body function)
    (hkind : function.kind.isFunction = true) : ¬Inside function node := by
  cases mem_ahead_iff.1 h with
  | @function parent _ h hnode _ =>
    exact fun hinside => h.not_mem_nodes hnodup hfunction hkind
      (hinside.mem_of_parent hnodup hfunction.mem_nodes ⟨h.mem_nodes, hnode⟩)

end Node

end Capabilities.Script
