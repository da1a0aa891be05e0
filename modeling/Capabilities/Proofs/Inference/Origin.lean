import Capabilities.Proofs.Inference.Moment
import Capabilities.Proofs.Inference.Performing

/-!
# Where the acts of a course come from

What is noted in the course of a tree is noted for a node of the tree in a position that fits: the
target of an assignment receives the value of its right side, and no other node receives anything.
So a name that is assigned to is noted by this assignment only.
-/

namespace Capabilities.Inference

open Script Capabilities.Types

variable {node child parent : Node} {position : Position} {spot : Spot} {act : Act} {role : Role}

/-- The acts that note something. -/
def Act.Records : Act → Prop
  | .notes _ => True
  | .assigns _ _ _ => True
  | _ => False

/-- The positions in which only the parts of a node are met. -/
def Position.isList : Position → Bool
  | .walkParts | .bindParts => true
  | _ => false

/-- What is noted for a node itself, in a position. -/
inductive Own (node : Node) (position : Position) : Act → Prop
  | notes (h : ∀ source, position = .receive source → node.kind ≠ .identifier) :
      Own node position (.notes node.id)
  | assigns {source : Option Node} {spot : Spot} (h : position = .receive source) :
      Own node position (.assigns source node spot)

/-- A part of a node is met in a position that fits. -/
structure Visits (parent child : Node) (position : Position) : Prop where
  part : child ∈ parent.parts
  target : parent.kind = .assignmentExpression → child.role = some .left →
    position = .receive (parent.part? .right)
  list : position.isList = true → child.kind ≠ .assignmentExpression

/-- An act comes from a part of a node. -/
def Reaches (node : Node) (act : Act) : Prop :=
  ∃ child position spot, Visits node child position ∧ act ∈ course child position spot

namespace Course

open Course (family)

/-! ### Parts -/

theorem reaches_each (hkind : node.kind ≠ .assignmentExpression)
    (hposition : position.isList = false)
    (h : act ∈ each (family node) position spot) : Reaches node act := by
  rw [each_family] at h
  obtain ⟨child, hchild, hact⟩ := List.mem_flatMap.1 h
  refine ⟨child, position, spot, ⟨hchild, fun hassignment => absurd hassignment hkind, ?_⟩, hact⟩
  intro hlist
  cases hposition.symm.trans hlist

theorem reaches_part (hplaced : Placed node) (hrole : role ≠ .left)
    (hlist : ∀ child, node.part? role = some child →
      position.isList = true → child.kind ≠ .assignmentExpression)
    (h : act ∈ part (family node) position spot role) : Reaches node act := by
  cases hchild : node.part? role with
  | none =>
    rw [part_of_none _ _ hchild] at h
    cases h
  | some child =>
    rw [part_of_some _ _ hchild] at h
    have hpart := Node.mem_parts_of_part? hplaced.aside hchild
    refine ⟨child, position, spot, ⟨hpart, ?_, hlist child hchild⟩, h⟩
    intro _ hleft
    rw [Node.role_of_part? hchild] at hleft
    exact absurd (Option.some.inj hleft) hrole

/-- A part that is evaluated. -/
theorem reaches_evaluated (hplaced : Placed node) (hrole : role ≠ .left)
    (h : act ∈ part (family node) .evaluate spot role) : Reaches node act :=
  reaches_part hplaced hrole (fun _ _ hlist => Bool.noConfusion hlist) h

theorem reaches_arguments (hplaced : Placed node)
    (h : act ∈ part (family node) .walkParts spot .arguments) : Reaches node act := by
  refine reaches_part hplaced (by decide) (fun child hchild _ hkind => ?_) h
  rcases Node.kind_of_arguments hplaced hchild with hlist | hlist <;> cases hkind.symm.trans hlist

/-- What is declared ahead is declared, and nothing is noted. -/
theorem declares_of_mem_hoist (h : act ∈ course node .hoist spot) :
    ∃ name, act = .declares spot.scope name := by
  have hdeclaring : ∀ {name}, act ∈ declaring spot name →
      ∃ name, act = .declares spot.scope name := by
    intro name hact
    obtain ⟨name, -, rfl⟩ := List.mem_map.1 hact
    exact ⟨name, rfl⟩
  induction node using Node.induction with
  | step node ih =>
    rw [course_eq] at h
    obtain ⟨item, hitem, hact⟩ := List.mem_flatMap.1 h
    rw [filter_family] at hitem
    obtain ⟨child, hchild, rfl⟩ := List.mem_map.1 hitem
    unfold hoistingOf at hact
    split at hact
    · exact hdeclaring hact
    · exact hdeclaring hact
    · obtain ⟨declarator, -, hact⟩ := List.mem_flatMap.1 hact
      exact hdeclaring hact
    · cases hact
    · cases hact
    · split at hact
      · cases hact
      · exact ih child (Node.mem_children_of_mem_parts hchild) hact

/-! ### Constructs -/

theorem reaches_parameters (hplaced : Placed node) (h : act ∈ parameters (family node) spot) :
    Reaches node act := by
  unfold parameters at h
  rw [find?_family] at h
  cases hsingle : node.part? .parameter with
  | some single =>
    rw [hsingle] at h
    have hpart : act ∈ part (family node) .bind spot .parameter := by
      rw [part_of_some _ _ hsingle]
      exact h
    exact reaches_part hplaced (by decide) (fun _ _ hlist => Bool.noConfusion hlist) hpart
  | none =>
    rw [hsingle] at h
    refine reaches_part hplaced (by decide) (fun child hchild _ hkind => ?_) h
    cases hkind.symm.trans (Node.kind_of_parameters hplaced hchild)

theorem reaches_body {before : List Act} (hplaced : Placed node) (hrecords : act.Records)
    (h : act ∈ body node (family node) spot before) : Reaches node act := by
  unfold body at h
  rw [find?_family] at h
  cases hbody : node.part? .body with
  | none =>
    rw [hbody] at h
    cases h
  | some child =>
    rw [hbody] at h
    have hpart := Node.mem_parts_of_part? hplaced.aside hbody
    have hrole : child.role ≠ some .left := by
      rw [Node.role_of_part? hbody]
      decide
    dsimp only [Option.map_some] at h
    split at h
    · rename_i hblock
      rcases List.mem_append.1 h with hahead | hwalked
      · obtain ⟨name, rfl⟩ := declares_of_mem_hoist hahead
        exact hrecords.elim
      · refine ⟨child, _, _, ⟨hpart, fun _ hleft => absurd hleft hrole, fun _ hkind => ?_⟩, hwalked⟩
        rw [hkind] at hblock
        cases hblock
    · exact ⟨child, _, _, ⟨hpart, fun _ hleft => absurd hleft hrole,
        fun hlist => Bool.noConfusion hlist⟩, h⟩

theorem of_mem_function (hplaced : Placed node) (hrecords : act.Records)
    (h : act ∈ function node (family node) spot) : Reaches node act ∨ act = .notes node.id := by
  unfold function at h
  dsimp only at h
  rcases List.mem_append.1 h with h | hnotes
  · refine Or.inl ?_
    rcases List.mem_append.1 h with hbound | hbody
    · rcases List.mem_append.1 hbound with hopening | hparameters
      · rcases List.mem_cons.1 hopening with rfl | hown
        · exact hrecords.elim
        · obtain ⟨name, -, rfl⟩ := List.mem_map.1 hown
          exact hrecords.elim
      · exact reaches_parameters hplaced hparameters
    · exact reaches_body hplaced hrecords hbody
  · exact Or.inr (List.mem_singleton.1 hnotes)

theorem reaches_parameter (hplaced : Placed node) (hrecords : act.Records)
    (h : act ∈ parameter node (family node) spot) : Reaches node act := by
  unfold parameter at h
  split at h
  · cases h
  · rcases List.mem_cons.1 h with rfl | h
    · exact hrecords.elim
    · split at h
      · exact reaches_evaluated hplaced (by decide) h
      · cases h

/-- The left side of an assignment receives the value of the right side. -/
theorem reaches_assignment (hplaced : Placed node)
    (h : act ∈ part (family node) .evaluate spot .right ++
      part (family node) (.receive (node.part? .right)) spot .left) : Reaches node act := by
  rcases List.mem_append.1 h with hright | hleft
  · exact reaches_evaluated hplaced (by decide) hright
  · cases hchild : node.part? .left with
    | none =>
      rw [part_of_none _ _ hchild] at hleft
      cases hleft
    | some child =>
      rw [part_of_some _ _ hchild] at hleft
      exact ⟨child, _, _, ⟨Node.mem_parts_of_part? hplaced.aside hchild, fun _ _ => rfl,
        fun hlist => Bool.noConfusion hlist⟩, hleft⟩

theorem of_mem_valueByKind (hplaced : Placed node) (hrecords : act.Records)
    (h : act ∈ valueByKind node (family node) spot) : Reaches node act ∨ act = .notes node.id := by
  have hoperands : act ∈ part (family node) .evaluate spot .callee ++
        part (family node) .walkParts spot .arguments ∨
      act ∈ part (family node) .evaluate spot .constructor ++
        part (family node) .walkParts spot .arguments → Reaches node act := by
    rintro (h | h) <;> rcases List.mem_append.1 h with h | h
    · exact reaches_evaluated hplaced (by decide) h
    · exact reaches_arguments hplaced h
    · exact reaches_evaluated hplaced (by decide) h
    · exact reaches_arguments hplaced h
  unfold valueByKind at h
  split at h
  case h_1 => cases h
  case h_2 => cases h
  case h_3 => cases h
  case h_4 => cases h
  case h_5 => cases h
  case h_6 => cases h
  case h_7 hkind => exact Or.inl (reaches_each (by rw [hkind]; decide) rfl h)
  case h_8 hkind => exact Or.inl (reaches_each (by rw [hkind]; decide) rfl h)
  case h_9 hkind => exact Or.inl (reaches_each (by rw [hkind]; decide) rfl h)
  case h_10 hkind => exact Or.inl (reaches_each (by rw [hkind]; decide) rfl h)
  case h_11 => exact of_mem_function hplaced hrecords h
  case h_12 => exact of_mem_function hplaced hrecords h
  case h_13 => exact of_mem_function hplaced hrecords h
  case h_14 => exact Or.inl (reaches_evaluated hplaced (by decide) h)
  case h_15 => exact Or.inl (hoperands (Or.inl h))
  case h_16 => exact Or.inl (hoperands (Or.inr h))
  case h_17 => exact Or.inl (reaches_assignment hplaced h)
  case h_18 =>
    refine Or.inl ?_
    rcases List.mem_append.1 h with h | h
    · rcases List.mem_append.1 h with h | h
      · exact reaches_evaluated hplaced (by decide) h
      · exact reaches_evaluated hplaced (by decide) h
    · exact reaches_evaluated hplaced (by decide) h
  case h_19 hassignment _ => exact Or.inl (reaches_each hassignment rfl h)

theorem of_mem_value (hplaced : Placed node) (hrecords : act.Records)
    (h : act ∈ value node (family node) spot) : Reaches node act ∨ act = .notes node.id := by
  rcases List.mem_append.1 h with h | h
  · exact of_mem_valueByKind hplaced hrecords h
  · exact Or.inr (List.mem_singleton.1 h)

theorem reaches_declaring {name : Option String} {acts : List Act} (hrecords : act.Records)
    (h : act ∈ declaring spot name ++ acts) : act ∈ acts := by
  rcases List.mem_append.1 h with h | h
  · obtain ⟨name, -, rfl⟩ := List.mem_map.1 h
    exact hrecords.elim
  · exact h

theorem of_mem_statement (hplaced : Placed node) (hrecords : act.Records)
    (h : act ∈ statement node (family node) spot) : Reaches node act ∨ act = .notes node.id := by
  unfold statement at h
  split at h
  case h_1 hkind => exact Or.inl (reaches_each (by rw [hkind]; decide) rfl h)
  case h_2 hkind => exact Or.inl (reaches_each (by rw [hkind]; decide) rfl h)
  case h_3 => exact of_mem_function hplaced hrecords h
  case h_4 => exact of_mem_function hplaced hrecords h
  case h_5 hkind =>
    refine Or.inl ?_
    have heach : act ∈ each (family node) .evaluate spot := by
      unfold returning at h
      unfold each
      split at h
      · cases h
      · rename_i hparts
        rw [hparts, List.flatMap_cons]
        exact List.mem_append_left _ h
    exact reaches_each (by rw [hkind]; decide) rfl heach
  case h_6 =>
    split at h
    · exact of_mem_value hplaced hrecords h
    · rename_i hexpression
      refine Or.inl (reaches_each ?_ rfl h)
      intro hassignment
      rw [hassignment] at hexpression
      exact hexpression rfl

theorem of_mem_objectMember (hplaced : Placed node) (hrecords : act.Records)
    (h : act ∈ objectMember node (family node) spot) : Reaches node act ∨ act = .notes node.id := by
  unfold objectMember at h
  split at h
  · exact Or.inl (reaches_evaluated hplaced (by decide) h)
  · cases h
  · exact of_mem_function hplaced hrecords h
  · exact of_mem_statement hplaced hrecords h

end Course

/-- What is noted in the course of a node is noted for the node itself or comes from a part. -/
theorem own_or_reaches (hplaced : Placed node) (hrecords : act.Records)
    (hlist : position.isList = true → node.kind ≠ .assignmentExpression)
    (h : act ∈ course node position spot) :
    Own node position act ∧ position.isList = false ∨ Reaches node act := by
  have hown : (Reaches node act ∨ act = .notes node.id) → position.isList = false →
      (∀ source, position = .receive source → node.kind ≠ .identifier) →
      Own node position act ∧ position.isList = false ∨ Reaches node act := by
    rintro (hreaches | rfl) hposition hreceive
    · exact Or.inr hreaches
    · exact Or.inl ⟨.notes hreceive, hposition⟩
  rw [course_eq] at h
  cases position with
  | hoist =>
    rw [← course_eq] at h
    obtain ⟨name, rfl⟩ := Course.declares_of_mem_hoist h
    exact hrecords.elim
  | walkParts => exact Or.inr (Course.reaches_each (hlist rfl) rfl h)
  | walk => exact hown (Course.of_mem_statement hplaced hrecords h) rfl nofun
  | evaluate => exact hown (Course.of_mem_value hplaced hrecords h) rfl nofun
  | declare =>
    refine Or.inr ?_
    change act ∈ Course.declarator _ _ _ at h
    unfold Course.declarator at h
    split at h
    · exact Course.reaches_evaluated hplaced (by decide) (Course.reaches_declaring hrecords h)
    · cases h
  | addTo => exact hown (Course.of_mem_objectMember hplaced hrecords h) rfl nofun
  | bind => exact Or.inr (Course.reaches_parameter hplaced hrecords h)
  | bindParts => exact Or.inr (Course.reaches_each (hlist rfl) rfl h)
  | receive source =>
    change act ∈ Course.target _ _ _ _ at h
    unfold Course.target at h
    split at h
    · rw [List.mem_singleton.1 h]
      exact Or.inl ⟨.assigns rfl, rfl⟩
    · exact Or.inr (Course.reaches_evaluated hplaced (by decide) h)
    · rename_i hidentifier _
      exact hown (Course.of_mem_statement hplaced hrecords h) rfl fun _ _ => hidentifier

/-- What is noted in the course of a tree is noted for a node of it, in a position that fits. -/
theorem exists_own_of_reaches (hplaced : Placed node) (hrecords : act.Records)
    (h : Reaches node act) :
    ∃ parent child position, node.Below parent child ∧ Visits parent child position ∧
      Own child position act := by
  induction node using Node.induction with
  | step node ih =>
    obtain ⟨child, position, spot, hvisits, hact⟩ := h
    have hchild := Node.mem_children_of_mem_parts hvisits.part
    rcases own_or_reaches (hplaced.of_mem hchild) hrecords hvisits.list hact with
      ⟨hown, -⟩ | hreaches
    · exact ⟨node, child, position, ⟨Node.self_mem_nodes node, hvisits.part⟩, hvisits, hown⟩
    · obtain ⟨parent, inner, place, hbelow, hinner, hown⟩ :=
        ih child hchild (hplaced.of_mem hchild) hreaches
      refine ⟨parent, inner, place, ⟨?_, hbelow.part⟩, hinner, hown⟩
      exact Node.Inside.mem_nodes ⟨child, hvisits.part, hbelow.among⟩

/-- A name that is assigned to is noted by this assignment only. -/
theorem eq_assigns_of_noted {root assignment left : Node} (hplaced : Placed root)
    (hids : (root.nodes.map Node.id).Nodup) (hroot : root.kind ≠ .assignmentExpression)
    (hbelow : root.Below assignment left) (hkind : assignment.kind = .assignmentExpression)
    (hrole : left.role = some .left) (hidentifier : left.kind = .identifier)
    (hact : act ∈ scriptCourse root) (hnoted : act.noted? = some left.id) :
    ∃ spot, act = .assigns (assignment.part? .right) left spot := by
  have hrecords : act.Records := by
    cases act with
    | notes id => trivial
    | assigns source left spot => trivial
    | opens scope parent => cases hnoted
    | declares scope name => cases hnoted
  have hreaches : Reaches root act := by
    rcases List.mem_append.1 hact with hahead | hwalked
    · obtain ⟨name, rfl⟩ := Course.declares_of_mem_hoist hahead
      exact hrecords.elim
    · refine (own_or_reaches hplaced hrecords (fun _ => hroot) hwalked).resolve_left ?_
      rintro ⟨-, hposition⟩
      cases hposition
  obtain ⟨parent, child, position, hchild, hvisits, hown⟩ :=
    exists_own_of_reaches hplaced hrecords hreaches
  have hid : child.id = left.id := by
    cases hown with
    | notes h => exact Option.some.inj hnoted
    | assigns h => exact Option.some.inj hnoted
  have hchildren := Node.eq_of_id_eq hids hchild.mem_nodes hbelow.mem_nodes hid
  subst hchildren
  have hparent := Node.parent_unique (.of_map _ hids) hchild hbelow
  subst hparent
  have hposition := hvisits.target hkind hrole
  cases hown with
  | notes h => exact absurd hidentifier (h _ hposition)
  | assigns h =>
    cases h.symm.trans hposition
    exact ⟨_, rfl⟩

end Capabilities.Inference
