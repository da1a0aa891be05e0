import Capabilities.Module.Entry

/-!
# Nodes with identities of their own

Where the nodes of a tree are told apart by their identities, so are the entry functions in it.
-/

namespace Capabilities.Script.Node

variable {root : Node}

/-- Nodes with the same identity are the same. -/
theorem eq_of_id_eq {first second : Node} (hids : (root.nodes.map id).Nodup)
    (hfirst : first ∈ root.nodes) (hsecond : second ∈ root.nodes) (h : first.id = second.id) :
    first = second := by
  have hpairwise := List.pairwise_map.1 (List.nodup_iff_pairwise_ne.1 hids)
  refine List.Pairwise.forall_of_forall_of_flip
    (R := fun first second : Node => first.id = second.id → first = second) (fun _ _ _ => rfl)
    (hpairwise.imp fun hne heq => absurd heq hne)
    (hpairwise.imp fun hne heq => absurd heq.symm hne) hfirst hsecond h

end Capabilities.Script.Node

namespace Capabilities.Module

open Script

theorem node_of_ofNode? {names : List String} {node : Node} {entry : Entry}
    (h : Entry.ofNode? names node = some entry) : entry.node = node := by
  unfold Entry.ofNode? at h
  dsimp only at h
  split at h
  · cases h
  · obtain ⟨name, _, h⟩ := Option.bind_eq_some_iff.1 h
    split at h
    · cases h
    · split at h
      · split at h
        · cases h
          rfl
        · cases h
      · cases h

/-- The entry functions of a script are told apart by their identities. -/
theorem nodup_entries {root : Node} (hids : (root.nodes.map Node.id).Nodup)
    (names : List String) : ((entries names root).map fun entry => entry.node.id).Nodup := by
  have hsublist : ∀ nodes : List Node,
      ((nodes.filterMap (Entry.ofNode? names)).map fun entry => entry.node.id).Sublist
        (nodes.map Node.id) := by
    intro nodes
    induction nodes with
    | nil => exact .slnil
    | cons node rest ih =>
      rw [List.filterMap_cons]
      cases hentry : Entry.ofNode? names node with
      | none => exact ih.cons _
      | some entry =>
        simp only [List.map_cons, node_of_ofNode? hentry]
        exact ih.cons_cons _
  exact hids.sublist (hsublist _)

theorem eq_of_id_eq {root : Node} {names : List String} {first second : Entry}
    (hids : (root.nodes.map Node.id).Nodup) (hfirst : first ∈ entries names root)
    (hsecond : second ∈ entries names root) (h : first.node.id = second.node.id) :
    first = second := by
  obtain ⟨node, hnode, hentry⟩ := List.mem_filterMap.1 hfirst
  obtain ⟨other, hother, hentry'⟩ := List.mem_filterMap.1 hsecond
  rw [node_of_ofNode? hentry, node_of_ofNode? hentry'] at h
  rw [Node.eq_of_id_eq hids hnode hother h, hentry'] at hentry
  exact (Option.some.inj hentry).symm

end Capabilities.Module
