import Capabilities.Proofs.Script.Identity
import Capabilities.Proofs.Script.Region
import Capabilities.Resolver.Synthesis
import Mathlib.Data.List.Flatten

/-!
# Calls in entry functions, in source order

The calls that a file may provide something with are collected one entry function after the other.
An entry function in another one is an entry function too, and then a call in both of them is
collected twice. Where no entry function lies in another one, every call in the body of an entry
function is collected once, and the calls stand in the order of the source.
-/

namespace Capabilities.Module

open Script Node Resolver

/-- The entry functions below a node are the node itself, if it is one, and those below its
    parts. -/
theorem entries_eq (names : List String) (root : Node) :
    entries names root
      = (Entry.ofNode? names root).toList ++ root.parts.flatMap (entries names) := by
  unfold entries
  rw [nodes_eq, List.filterMap_cons, List.filterMap_flatMap]
  cases Entry.ofNode? names root <;> rfl

theorem providerCalls_flatMap (nodes : List Node) (names : List String) :
    providerCalls (nodes.flatMap (entries names))
      = nodes.flatMap fun node => providerCalls (entries names node) :=
  List.flatMap_assoc

/-- A call is collected just if it lies in the body of an entry function. -/
theorem mem_providerCalls {found : List Entry} {call : Node} :
    call ∈ providerCalls found ↔ ∃ entry ∈ found, ∃ body, entry.body? = some body ∧
      call ∈ body.nodes ∧ call.kind = .callExpression := by
  unfold providerCalls
  rw [List.mem_flatMap]
  refine exists_congr fun entry => and_congr_right fun _ => ?_
  cases entry.body? with
  | none => simp
  | some body => simp [calls_eq]

/-! ### Entry functions that lie apart -/

/-- No entry function below the root lies in another one: the only one in an entry function is the
    function itself. -/
def Apart (names : List String) (root : Node) : Prop :=
  ∀ entry ∈ entries names root, (entries names entry.node).length = 1

instance (names : List String) (root : Node) : Decidable (Apart names root) :=
  inferInstanceAs (Decidable (∀ entry ∈ entries names root, _))

theorem Apart.part {names : List String} {root child : Node} (h : Apart names root)
    (hchild : child ∈ root.parts) : Apart names child := by
  intro entry hentry
  refine h entry ?_
  rw [entries_eq]
  exact List.mem_append_right _ (List.mem_flatMap.2 ⟨child, hchild, hentry⟩)

/-- Apart from others, a node that is an entry function is the only one below it. -/
theorem Apart.entries_eq_self {names : List String} {root : Node} {entry : Entry}
    (h : Apart names root) (hroot : Entry.ofNode? names root = some entry) :
    entries names root = [entry] := by
  have hmem : entry ∈ entries names root := by
    rw [entries_eq, hroot]
    exact List.mem_append_left _ (List.mem_singleton_self entry)
  obtain ⟨only, honly⟩ := List.length_eq_one_iff.1 (h entry hmem)
  rw [node_of_ofNode? hroot] at honly
  rw [honly] at hmem ⊢
  rw [List.mem_singleton.1 hmem]

theorem entries_eq_parts {names : List String} {root : Node}
    (hroot : Entry.ofNode? names root = none) :
    entries names root = root.parts.flatMap (entries names) := by
  rw [entries_eq, hroot]
  rfl

/-- The body of a function is searched for calls, and nothing else of it is. -/
theorem sublist_calls_body {entry : Entry} (haside : Aside entry.node) :
    ((entry.body?.map calls).getD []).Sublist entry.node.nodes := by
  cases hbody : entry.body? with
  | none => exact List.nil_sublist _
  | some body =>
    obtain ⟨before, behind, hparts⟩ := List.append_of_mem (mem_parts_of_part? haside hbody)
    rw [Option.map_some, Option.getD_some, calls_eq, entry.node.nodes_eq, hparts,
      List.flatMap_append, List.flatMap_cons]
    refine List.filter_sublist.trans (.cons _ ?_)
    exact (List.sublist_append_left _ _).trans (List.sublist_append_right _ _)

/-- Where entry functions lie apart, the calls in their bodies are collected in the order of the
    source: induction on the tree. A node that is an entry function has calls in its body only; any
    other has those of its parts, one after the other. -/
theorem sublist_providerCalls {names : List String} {root : Node} (haside : Aside root)
    (hapart : Apart names root) : (providerCalls (entries names root)).Sublist root.nodes := by
  induction root using Node.induction with
  | step root ih =>
    cases hentry : Entry.ofNode? names root with
    | none =>
      rw [entries_eq_parts hentry, providerCalls_flatMap, nodes_eq]
      refine .cons _ (List.Sublist.flatMap_right _ fun part hpart => ?_)
      have hmem := mem_children_of_mem_parts hpart
      exact ih part hmem (haside.of_mem hmem) (hapart.part hpart)
    | some entry =>
      rw [hapart.entries_eq_self hentry]
      unfold providerCalls
      rw [List.flatMap_singleton]
      have hnode := node_of_ofNode? hentry
      rw [← hnode] at haside ⊢
      exact sublist_calls_body haside

end Capabilities.Module
