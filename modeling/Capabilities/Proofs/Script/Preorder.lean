import Capabilities.Proofs.Script.Identity
import Mathlib.Data.List.Lex
import Mathlib.Data.List.Sort

/-!
# Positions below a node

A node stands below another one at a position: the numbers of the parts on the way down to it.
Comments have no number, so there is no way through them. In the lexicographic order of positions
a node comes ahead of all that is below it, and what is below one part comes ahead of what is below
the next: this is the order in which the nodes of a tree stand in the source, parents first.

A list is `InPreorder` for a condition if it has the nodes that meet it in this order, each one as
often as it stands below the root. `Node.nodes` and what is picked from it are such lists, and there
is no other for the same condition.
-/

namespace Capabilities.Script.Node

/-- The node at a position below a node. -/
def at? (node : Node) : List Nat → Option Node
  | [] => some node
  | index :: position => node.parts[index]?.bind fun part => part.at? position

/-- The positions in each of a row of subtrees, seen from the parent of the row. -/
def branches (start : Nat) : List (List (List Nat)) → List (List Nat)
  | [] => []
  | below :: rest => below.map (start :: ·) ++ branches (start + 1) rest

def positions (node : Node) : List (List Nat) :=
  node.fold fun _ children =>
    [] :: branches 0 ((children.filter fun child => !child.1.isComment).map Prod.snd)

theorem positions_eq (node : Node) :
    node.positions = [] :: branches 0 (node.parts.map positions) := by
  rw [positions, fold_eq]
  congr 2
  rw [parts, List.filter_map, List.map_map]
  rfl

/-! ### The positions of a row of subtrees -/

theorem mem_branches {start : Nat} {row : List (List (List Nat))} {position : List Nat} :
    position ∈ branches start row ↔
      ∃ index below rest, row[index]? = some below ∧ rest ∈ below ∧
        position = (start + index) :: rest := by
  induction row generalizing start with
  | nil => simp [branches]
  | cons first later ih =>
    rw [branches, List.mem_append, List.mem_map, ih]
    constructor
    · rintro (⟨rest, hrest, rfl⟩ | ⟨index, below, rest, hbelow, hrest, rfl⟩)
      · exact ⟨0, first, rest, rfl, hrest, rfl⟩
      · refine ⟨index + 1, below, rest, hbelow, hrest, ?_⟩
        rw [Nat.add_right_comm, Nat.add_assoc]
    · rintro ⟨index, below, rest, hbelow, hrest, rfl⟩
      cases index with
      | zero =>
        cases Option.some.inj hbelow
        exact Or.inl ⟨rest, hrest, rfl⟩
      | succ index =>
        refine Or.inr ⟨index, below, rest, hbelow, hrest, ?_⟩
        rw [Nat.add_right_comm, Nat.add_assoc]

theorem pairwise_branches {start : Nat} {row : List (List (List Nat))}
    (h : ∀ below ∈ row, below.Pairwise (· < ·)) : (branches start row).Pairwise (· < ·) := by
  induction row generalizing start with
  | nil => exact .nil
  | cons first later ih =>
    refine List.pairwise_append.2 ⟨?_, ih fun below hbelow => h below (.tail _ hbelow), ?_⟩
    · exact List.pairwise_map.2 ((h first List.mem_cons_self).imp fun hlt =>
        List.cons_lt_cons_iff.2 (Or.inr ⟨rfl, hlt⟩))
    · intro front hfront back hback
      obtain ⟨rest, -, rfl⟩ := List.mem_map.1 hfront
      obtain ⟨index, -, behind, -, -, rfl⟩ := mem_branches.1 hback
      exact List.cons_lt_cons_iff.2 (Or.inl (by omega))

/-! ### The positions below a node -/

variable {root node : Node} {position : List Nat}

theorem mem_positions : position ∈ node.positions ↔ ∃ found, node.at? position = some found := by
  induction node using Node.induction generalizing position with
  | step node ih =>
    rw [positions_eq, List.mem_cons]
    cases position with
    | nil => simp [at?]
    | cons index rest =>
      have hrow : index :: rest ∈ branches 0 (node.parts.map positions) ↔
          ∃ part, node.parts[index]? = some part ∧ rest ∈ part.positions := by
        rw [mem_branches]
        constructor
        · rintro ⟨_, below, _, hbelow, hrest, heq⟩
          obtain ⟨rfl, rfl⟩ := List.cons.inj heq
          rw [List.getElem?_map] at hbelow
          obtain ⟨part, hpart, rfl⟩ := Option.map_eq_some_iff.1 hbelow
          exact ⟨part, by rwa [Nat.zero_add], hrest⟩
        · rintro ⟨part, hpart, hrest⟩
          refine ⟨index, part.positions, rest, ?_, hrest, by rw [Nat.zero_add]⟩
          rw [List.getElem?_map, hpart]
          rfl
      rw [hrow, at?]
      simp only [List.cons_ne_nil, false_or, Option.bind_eq_some_iff]
      constructor
      · rintro ⟨part, hpart, hrest⟩
        have hmem := mem_children_of_mem_parts (List.mem_of_getElem? hpart)
        obtain ⟨found, hfound⟩ := (ih part hmem).1 hrest
        exact ⟨found, part, hpart, hfound⟩
      · rintro ⟨found, part, hpart, hfound⟩
        have hmem := mem_children_of_mem_parts (List.mem_of_getElem? hpart)
        exact ⟨part, hpart, (ih part hmem).2 ⟨found, hfound⟩⟩

theorem pairwise_positions (node : Node) : node.positions.Pairwise (· < ·) := by
  induction node using Node.induction with
  | step node ih =>
    rw [positions_eq]
    refine List.pairwise_cons.2 ⟨fun position h => ?_, pairwise_branches ?_⟩
    · obtain ⟨index, -, rest, -, -, rfl⟩ := mem_branches.1 h
      exact List.nil_lt_cons _ _
    · intro below hbelow
      obtain ⟨part, hpart, rfl⟩ := List.mem_map.1 hbelow
      exact ih part (mem_children_of_mem_parts hpart)

/-- The nodes of a tree stand at its positions, in order. -/
theorem map_at?_positions (node : Node) : node.positions.map node.at? = node.nodes.map some := by
  induction node using Node.induction with
  | step node ih =>
    -- the row of parts from a part on, each with what is below it
    have hrow : ∀ (front back : List Node), node.parts = front ++ back →
        (branches front.length (back.map positions)).map node.at? =
          (back.flatMap nodes).map some := by
      intro front back hparts
      induction back generalizing front with
      | nil => rfl
      | cons part rest ihrest =>
        have hpart : node.parts[front.length]? = some part := by
          rw [hparts, List.getElem?_append_right (Nat.le_refl _), Nat.sub_self]
          rfl
        have hnext := ihrest (front ++ [part]) (by rw [hparts, List.append_assoc]; rfl)
        rw [List.length_append, List.length_singleton] at hnext
        have hbelow : part.positions.map (fun position => node.at? (front.length :: position)) =
            part.nodes.map some := by
          rw [← ih part (mem_children_of_mem_parts (List.mem_of_getElem? hpart))]
          refine List.map_congr_left fun position _ => ?_
          rw [at?, hpart, Option.bind_some]
        rw [List.map_cons, branches, List.map_append, hnext, List.map_map, List.flatMap_cons,
          List.map_append]
        exact congrArg (· ++ _) hbelow
    rw [positions_eq, nodes_eq, List.map_cons, List.map_cons]
    exact congrArg (some node :: ·) (hrow [] node.parts rfl)

theorem mem_nodes_iff {found : Node} :
    found ∈ root.nodes ↔ ∃ position, root.at? position = some found := by
  have hmap : some found ∈ root.nodes.map some ↔ found ∈ root.nodes := by simp
  rw [← hmap, ← map_at?_positions, List.mem_map]
  constructor
  · rintro ⟨position, -, h⟩
    exact ⟨position, h⟩
  · rintro ⟨position, h⟩
    exact ⟨position, mem_positions.2 ⟨found, h⟩, h⟩

/-! ### Lists in pre-order -/

/-- The list has the nodes below the root that meet a condition, one for each position at which
    such a node stands, in the order of the positions. -/
def InPreorder (root : Node) (P : Node → Prop) (found : List Node) : Prop :=
  ∃ positions : List (List Nat), positions.Pairwise (· < ·) ∧
    (∀ position, position ∈ positions ↔ ∃ node, root.at? position = some node ∧ P node) ∧
    positions.map root.at? = found.map some

variable {P : Node → Prop} {found other : List Node}

theorem InPreorder.unique (h : InPreorder root P found) (h' : InPreorder root P other) :
    found = other := by
  obtain ⟨positions, hsorted, hmem, hfound⟩ := h
  obtain ⟨positions', hsorted', hmem', hother⟩ := h'
  have hperm : positions.Perm positions' :=
    (List.perm_ext_iff_of_nodup (hsorted.imp ne_of_lt) (hsorted'.imp ne_of_lt)).2 fun position =>
      (hmem position).trans (hmem' position).symm
  have heq : positions = positions' :=
    hperm.eq_of_pairwise (fun _ _ _ _ hlt hgt => absurd hgt (lt_asymm hlt)) hsorted hsorted'
  rw [heq] at hfound
  exact List.map_injective_iff.2 (Option.some_injective _) (hfound.symm.trans hother)

/-- What is picked from the nodes of a tree is in pre-order. -/
theorem inPreorder_filter (root : Node) (p : Node → Bool) :
    InPreorder root (fun node => p node = true) (root.nodes.filter p) := by
  refine ⟨root.positions.filter fun position => (root.at? position).any p,
    (pairwise_positions root).filter _, fun position => ?_, ?_⟩
  · rw [List.mem_filter, mem_positions]
    constructor
    · rintro ⟨⟨node, hnode⟩, hp⟩
      rw [hnode] at hp
      exact ⟨node, hnode, hp⟩
    · rintro ⟨node, hnode, hp⟩
      exact ⟨⟨node, hnode⟩, by rw [hnode]; exact hp⟩
  · have hmap : (root.positions.map root.at?).filter (·.any p) =
        (root.nodes.map some).filter (·.any p) := by rw [map_at?_positions]
    rw [List.filter_map, List.filter_map] at hmap
    exact hmap

theorem InPreorder.congr {Q : Node → Prop} (h : InPreorder root P found)
    (hiff : ∀ node ∈ root.nodes, P node ↔ Q node) : InPreorder root Q found := by
  obtain ⟨positions, hsorted, hmem, hfound⟩ := h
  refine ⟨positions, hsorted, fun position => (hmem position).trans ?_, hfound⟩
  refine exists_congr fun node => and_congr_right fun hnode => ?_
  exact hiff node (mem_nodes_iff.2 ⟨position, hnode⟩)

/-! ### The last node of a kind -/

/-- A place in the list of nodes behind which a condition is not met any more is a position behind
    which it is not met. -/
theorem exists_last_iff {P Q : Node → Prop} :
    (∃ front node back, root.nodes = front ++ node :: back ∧ Q node ∧ ∀ later ∈ back, ¬P later) ↔
      ∃ position node, root.at? position = some node ∧ Q node ∧
        ∀ behind later, position < behind → root.at? behind = some later → ¬P later := by
  constructor
  · rintro ⟨front, node, back, hnodes, hnode, hback⟩
    have hmap := map_at?_positions root
    rw [hnodes, List.map_append, List.map_cons] at hmap
    obtain ⟨before, rest, hpositions, -, hrest⟩ := List.map_eq_append_iff.1 hmap
    obtain ⟨position, after, rfl, hposition, hafter⟩ := List.map_eq_cons_iff.1 hrest
    refine ⟨position, node, hposition, hnode, fun behind later hlt hlater => hback later ?_⟩
    have hsorted := pairwise_positions root
    have hbehind : behind ∈ root.positions := mem_positions.2 ⟨later, hlater⟩
    rw [hpositions] at hsorted hbehind
    obtain ⟨-, -, hahead⟩ := List.pairwise_append.1 hsorted
    rcases List.mem_append.1 hbehind with hmem | hmem
    · exact absurd (hahead behind hmem position List.mem_cons_self) (lt_asymm hlt)
    · rcases List.mem_cons.1 hmem with rfl | hmem
      · exact absurd hlt (lt_irrefl _)
      · have hsome : some later ∈ back.map some := hafter ▸ hlater ▸ List.mem_map_of_mem hmem
        simpa using hsome
  · rintro ⟨position, node, hposition, hnode, hbehind⟩
    obtain ⟨before, after, hpositions⟩ :=
      List.append_of_mem (mem_positions.2 ⟨node, hposition⟩)
    have hmap := map_at?_positions root
    rw [hpositions, List.map_append, List.map_cons, hposition] at hmap
    obtain ⟨front, rest, hnodes, -, hrest⟩ := List.map_eq_append_iff.1 hmap.symm
    obtain ⟨_, back, rfl, hsame, hback⟩ := List.map_eq_cons_iff.1 hrest
    cases hsame
    refine ⟨front, node, back, hnodes, hnode, fun later hlater => ?_⟩
    have hsome : some later ∈ after.map root.at? := hback ▸ List.mem_map_of_mem hlater
    obtain ⟨behind, hmem, hlater⟩ := List.mem_map.1 hsome
    have hsorted := pairwise_positions root
    rw [hpositions] at hsorted
    have hlt := (List.pairwise_cons.1 (List.pairwise_append.1 hsorted).2.1).1 behind hmem
    exact hbehind behind later hlt hlater

end Capabilities.Script.Node
