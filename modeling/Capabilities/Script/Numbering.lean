import Capabilities.Script.Node

/-!
# Numbering a tree

`Node.number` hands out identities, parents first. It takes them from a stretch of numbers, in
order, so they tell the nodes of a tree apart.
-/

namespace Capabilities.Script.Node

mutual
/-- Give the nodes of a subtree the identities from `next` on, parents first; with the first
    identity not used. -/
def numberFrom (next : Nat) : Node → Node × Nat
  | ⟨_, kind, role, start, stop, lexeme, children⟩ =>
    let (children, free) := numberAllFrom (next + 1) children
    (⟨next, kind, role, start, stop, lexeme, children⟩, free)
def numberAllFrom (next : Nat) : List Node → List Node × Nat
  | [] => ([], next)
  | child :: rest =>
    let (child, next) := numberFrom next child
    let (rest, free) := numberAllFrom next rest
    (child :: rest, free)
end

def number (root : Node) : Node := (numberFrom 0 root).1

/-- Identities that lie in a stretch of numbers and rise. -/
structure NumberedWithin (first free : Nat) (nodes : List Node) : Prop where
  le : first ≤ free
  within : ∀ node ∈ nodes, first ≤ node.id ∧ node.id < free
  rising : nodes.Pairwise fun node later => node.id < later.id

theorem NumberedWithin.nil {first free : Nat} (h : first ≤ free) : NumberedWithin first free [] :=
  ⟨h, fun _ hnode => absurd hnode List.not_mem_nil, .nil⟩

theorem NumberedWithin.widen {first free least bound : Nat} {nodes : List Node}
    (h : NumberedWithin first free nodes) (hleast : least ≤ first) (hbound : free ≤ bound) :
    NumberedWithin least bound nodes :=
  ⟨Nat.le_trans (Nat.le_trans hleast h.le) hbound,
    fun node hnode => ⟨Nat.le_trans hleast (h.within node hnode).1,
      Nat.lt_of_lt_of_le (h.within node hnode).2 hbound⟩, h.rising⟩

theorem NumberedWithin.append {first middle free : Nat} {front back : List Node}
    (hfront : NumberedWithin first middle front) (hback : NumberedWithin middle free back) :
    NumberedWithin first free (front ++ back) := by
  refine ⟨Nat.le_trans hfront.le hback.le, ?_, ?_⟩
  · intro node hnode
    rcases List.mem_append.1 hnode with hnode | hnode
    · obtain ⟨hle, hlt⟩ := hfront.within node hnode
      exact ⟨hle, Nat.lt_of_lt_of_le hlt hback.le⟩
    · obtain ⟨hle, hlt⟩ := hback.within node hnode
      exact ⟨Nat.le_trans hfront.le hle, hlt⟩
  · refine List.pairwise_append.2 ⟨hfront.rising, hback.rising, ?_⟩
    intro node hnode later hlater
    exact Nat.lt_of_lt_of_le (hfront.within node hnode).2 (hback.within later hlater).1

/-- Numbering a tree, and numbering siblings: induction on the tree, parents before parts. -/
theorem numberedWithin_numberFrom (node : Node) :
    ∀ next, NumberedWithin next (numberFrom next node).2 (numberFrom next node).1.nodes := by
  refine Node.rec
    (motive_1 := fun node => ∀ next,
      NumberedWithin next (numberFrom next node).2 (numberFrom next node).1.nodes)
    (motive_2 := fun children => ∀ next,
      NumberedWithin next (numberAllFrom next children).2
        (nodesOfAll (numberAllFrom next children).1)) ?_ ?_ ?_ node
  · intro id kind role start stop lexeme children ih next
    have hchildren := ih (next + 1)
    simp only [numberFrom, nodes]
    refine ⟨Nat.le_of_succ_le hchildren.le, ?_, ?_⟩
    · intro found hfound
      rcases List.mem_cons.1 hfound with rfl | hfound
      · exact ⟨Nat.le_refl _, hchildren.le⟩
      · obtain ⟨hle, hlt⟩ := hchildren.within found hfound
        exact ⟨Nat.le_of_succ_le hle, hlt⟩
    · exact List.pairwise_cons.2 ⟨fun found hfound => (hchildren.within found hfound).1,
        hchildren.rising⟩
  · intro next
    exact .nil (Nat.le_refl next)
  · intro child rest ihChild ihRest next
    have hchild := ihChild next
    have hrest := ihRest (numberFrom next child).2
    simp only [numberAllFrom, nodesOfAll]
    split
    · exact hrest.widen hchild.le (Nat.le_refl _)
    · exact hchild.append hrest

/-- Numbering tells the nodes of a tree apart. -/
theorem nodup_nodes_number (root : Node) : (root.number.nodes.map id).Nodup :=
  List.pairwise_map.2
    ((numberedWithin_numberFrom root 0).rising.imp fun hlt => Nat.ne_of_lt hlt)

end Capabilities.Script.Node
