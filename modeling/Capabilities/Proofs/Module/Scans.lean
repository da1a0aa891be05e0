import Capabilities.Proofs.Module.Calls
import Capabilities.Proofs.Script.Preorder

/-!
# Scans of a tree are complete and in order

Calls are collected with a stack of nodes that are still to be visited, entry functions by a
recursion over the tree. The stack always holds what is left of the tree in pre-order, so the loop
does what the recursion would do. Both scans list every node they look for, wherever it stands,
once and in pre-order.

What an entry function is, is said here by the parts of a function declaration: its name, and the
list of its parameters, each of which may have a default value or gather the rest of the arguments.
-/

namespace Capabilities.Module

open Script Node

/-! ### Calls -/

/-- The loop does with each node on the stack what it does with a tree. -/
theorem callsFrom_stack (found stack : List Node) :
    callsFrom found stack = found ++ stack.flatMap calls := by
  have hcalls : calls = fun node => node.nodes.filter (·.kind == .callExpression) :=
    funext calls_eq
  rw [callsFrom_eq, hcalls, List.filter_flatMap]

/-- The calls in a tree are the node itself, if it is one, and those in its parts. -/
theorem calls_parts (node : Node) :
    calls node =
      (if node.kind = .callExpression then [node] else []) ++ node.parts.flatMap calls := by
  have hcalls : calls = fun node => node.nodes.filter (·.kind == .callExpression) :=
    funext calls_eq
  rw [calls_eq, nodes_eq, List.filter_cons, List.filter_flatMap, ← hcalls]
  by_cases hkind : node.kind = .callExpression <;> simp [hkind]

/-- The recursion over the tree has one solution. -/
theorem eq_calls_iff (scan : Node → List Node) :
    scan = calls ↔ ∀ node, scan node =
      (if node.kind = .callExpression then [node] else []) ++ node.parts.flatMap scan := by
  constructor
  · rintro rfl
    exact calls_parts
  · refine fun h => funext fun node => ?_
    induction node using Node.induction with
    | step node ih =>
      rw [h, calls_parts]
      congr 1
      exact List.flatMap_congr fun part hpart => ih part (mem_children_of_mem_parts hpart)

theorem inPreorder_calls (root : Node) :
    InPreorder root (fun node => node.kind = .callExpression) (calls root) := by
  rw [calls_eq]
  exact (inPreorder_filter root _).congr fun node _ => beq_iff_eq

/-! ### Entry functions -/

/-- A parameter binds a name: it is the name, or the name with a default value, or the name behind
    the dots that gather the rest. Patterns bind no name as a whole. -/
inductive Binds (parameter : Node) : String → Prop
  | plain (hkind : parameter.kind = .identifier) : Binds parameter parameter.lexeme
  | default {left : Node} (hkind : parameter.kind = .assignmentPattern)
      (hleft : parameter.part? .left = some left) (hname : left.kind.isName = true) :
      Binds parameter left.lexeme
  | rest {inner : Node} {more : List Node} (hkind : parameter.kind = .restPattern)
      (hparts : parameter.parts = inner :: more) (hname : inner.kind.isName = true) :
      Binds parameter inner.lexeme

/-- A node is an entry function under a name: a declaration of a function of this name, one of the
    given ones, whose list of parameters has three that are not comments; the second binds `imports`
    and the third `register`. -/
structure IsEntry (names : List String) (node : Node) (name : String) : Prop where
  kind : node.kind = .functionDeclaration
  named : node.nameOf? .name = some name
  known : name ∈ names
  single : node.part? .parameter = none
  parameters : ∃ list first second third, node.part? .parameters = some list ∧
    list.parts = [first, second, third] ∧
    Binds second importsParameter ∧ Binds third registerParameter

theorem identifierName?_eq_some_iff {node : Node} {name : String} :
    node.identifierName? = some name ↔ node.kind.isName = true ∧ node.lexeme = name := by
  unfold identifierName?
  split <;> simp [*]

theorem parameterName?_eq_some_iff {parameter : Node} {name : String} :
    parameter.parameterName? = some name ↔ Binds parameter name := by
  constructor
  · intro h
    unfold parameterName? at h
    split at h
    · next hkind =>
      obtain ⟨-, rfl⟩ := identifierName?_eq_some_iff.1 h
      exact .plain hkind
    · next hkind =>
      obtain ⟨left, hleft, h⟩ := Option.bind_eq_some_iff.1 h
      obtain ⟨hname, rfl⟩ := identifierName?_eq_some_iff.1 h
      exact .default hkind hleft hname
    · next hkind =>
      obtain ⟨inner, hinner, h⟩ := Option.bind_eq_some_iff.1 h
      obtain ⟨more, hparts⟩ := List.head?_eq_some_iff.1 hinner
      obtain ⟨hname, rfl⟩ := identifierName?_eq_some_iff.1 h
      exact .rest hkind hparts hname
    · cases h
  · intro h
    cases h with
    | plain hkind =>
      have hname : parameter.kind.isName = true := by rw [hkind]; rfl
      simp only [parameterName?, hkind]
      exact identifierName?_eq_some_iff.2 ⟨hname, rfl⟩
    | default hkind hleft hname =>
      simp only [parameterName?, hkind, hleft, Option.bind_some]
      exact identifierName?_eq_some_iff.2 ⟨hname, rfl⟩
    | rest hkind hparts hname =>
      simp only [parameterName?, hkind, hparts, List.head?_cons, Option.bind_some]
      exact identifierName?_eq_some_iff.2 ⟨hname, rfl⟩

/-- A lone parameter without parentheses is not one of three. -/
theorem parameterNodes_eq_iff {node first second third : Node} :
    node.parameterNodes = [first, second, third] ↔
      node.part? .parameter = none ∧ ∃ list, node.part? .parameters = some list ∧
        list.parts = [first, second, third] := by
  unfold parameterNodes
  cases node.part? .parameter with
  | some single => simp
  | none => cases node.part? .parameters <;> simp

theorem ofNode?_eq_some_iff {names : List String} {node : Node} {entry : Entry} :
    Entry.ofNode? names node = some entry ↔ entry.node = node ∧ IsEntry names node entry.name := by
  constructor
  · intro h
    refine ⟨node_of_ofNode? h, ?_⟩
    unfold Entry.ofNode? at h
    dsimp only at h
    split at h
    · cases h
    · next hkind =>
      obtain ⟨name, hname, h⟩ := Option.bind_eq_some_iff.1 h
      split at h
      · cases h
      · next hknown =>
        split at h
        · next first second third hparameters =>
          split at h
          · next hbound =>
            cases h
            rw [Bool.and_eq_true, beq_iff_eq, beq_iff_eq] at hbound
            obtain ⟨hsingle, list, hlist, hparts⟩ := parameterNodes_eq_iff.1 hparameters
            exact ⟨by simpa using hkind, hname, by simpa using hknown, hsingle, list, first,
              second, third, hlist, hparts, parameterName?_eq_some_iff.1 hbound.1,
              parameterName?_eq_some_iff.1 hbound.2⟩
          · cases h
        · cases h
  · rintro ⟨rfl, hkind, hnamed, hknown, hsingle, list, first, second, third, hlist, hparts, hsecond,
      hthird⟩
    have hparameters := parameterNodes_eq_iff.2 ⟨hsingle, list, hlist, hparts⟩
    have hkind : (entry.node.kind != .functionDeclaration) = false := by simp [hkind]
    simp [Entry.ofNode?, hkind, hnamed, hknown, hparameters, parameterName?_eq_some_iff.2 hsecond,
      parameterName?_eq_some_iff.2 hthird]

theorem isSome_ofNode?_iff {names : List String} {node : Node} :
    (Entry.ofNode? names node).isSome = true ↔ ∃ name, IsEntry names node name := by
  rw [Option.isSome_iff_exists]
  constructor
  · rintro ⟨entry, h⟩
    exact ⟨entry.name, (ofNode?_eq_some_iff.1 h).2⟩
  · rintro ⟨name, h⟩
    exact ⟨⟨node, name⟩, ofNode?_eq_some_iff.2 ⟨rfl, h⟩⟩

theorem map_node_filterMap (names : List String) (nodes : List Node) :
    (nodes.filterMap (Entry.ofNode? names)).map Entry.node =
      nodes.filter fun node => (Entry.ofNode? names node).isSome := by
  induction nodes with
  | nil => rfl
  | cons node rest ih =>
    cases hentry : Entry.ofNode? names node with
    | none => rw [List.filterMap_cons_none hentry, ih, List.filter_cons_of_neg (by simp [hentry])]
    | some entry =>
      rw [List.filterMap_cons_some hentry, List.map_cons, ih, node_of_ofNode? hentry,
        List.filter_cons_of_pos (by simp [hentry])]

theorem inPreorder_entries (names : List String) (root : Node) :
    InPreorder root (fun node => ∃ name, IsEntry names node name)
      ((entries names root).map Entry.node) := by
  rw [entries, map_node_filterMap]
  exact (inPreorder_filter root _).congr fun node _ => isSome_ofNode?_iff

theorem isEntry_of_mem {names : List String} {root : Node} {entry : Entry}
    (h : entry ∈ entries names root) : IsEntry names entry.node entry.name := by
  obtain ⟨node, -, hentry⟩ := List.mem_filterMap.1 h
  obtain ⟨rfl, h⟩ := ofNode?_eq_some_iff.1 hentry
  exact h

/-- Entry functions are told by their nodes, for each node has one name. -/
theorem filterMap_map_node {names : List String} {found : List Entry}
    (h : ∀ entry ∈ found, IsEntry names entry.node entry.name) :
    (found.map Entry.node).filterMap (Entry.ofNode? names) = found := by
  rw [List.filterMap_map]
  refine (List.filterMap_congr fun entry hentry => ?_).trans List.filterMap_some
  exact ofNode?_eq_some_iff.2 ⟨rfl, h entry hentry⟩

/-- The scans list what they look for at every position of a tree, once for each position and in
    pre-order: the stack of the one and the recursion that it stands for find all calls, the other
    finds all entry functions, in one another, too, each under its name. -/
theorem scans_in_preorder (names : List String) (root : Node) :
    (∀ found, found = calls root ↔
      InPreorder root (fun node => node.kind = .callExpression) found) ∧
      (∀ found stack, callsFrom found stack = found ++ stack.flatMap calls) ∧
      (∀ scan : Node → List Node, scan = calls ↔ ∀ node, scan node =
        (if node.kind = .callExpression then [node] else []) ++ node.parts.flatMap scan) ∧
      ∀ found : List Entry, found = entries names root ↔
        InPreorder root (fun node => ∃ name, IsEntry names node name) (found.map Entry.node) ∧
          ∀ entry ∈ found, IsEntry names entry.node entry.name := by
  refine ⟨fun found => ⟨?_, ?_⟩, callsFrom_stack, eq_calls_iff, fun found => ⟨?_, ?_⟩⟩
  · rintro rfl
    exact inPreorder_calls root
  · exact fun h => h.unique (inPreorder_calls root)
  · rintro rfl
    exact ⟨inPreorder_entries names root, fun entry => isEntry_of_mem⟩
  · rintro ⟨h, hentries⟩
    rw [← filterMap_map_node hentries, h.unique (inPreorder_entries names root)]
    exact filterMap_map_node fun entry => isEntry_of_mem

end Capabilities.Module
