import Capabilities.Proofs.Script.Placed
import Capabilities.Script.Parse

/-!
# Tidy trees

The grammar makes trees in which each node stands where its kind may stand, and in which every pair
has a value. This is kept by whatever is done to a tree once its parts are read: turning an
expression into the pattern it spells, setting comments into it, and numbering it.
-/

namespace Capabilities.Script

/-- Every node below stands where its kind may stand, and every pair has a value. -/
def Tidy : Node → Prop := Throughout fun node =>
  (∀ child ∈ node.children, node.kind.holds child.kind child.role = true) ∧
    (node.kind = .pair → (node.part? .value).isSome = true)

namespace Tidy

variable {node child : Node}

theorem placed (h : Tidy node) : Placed node := h.mono fun _ hboth => hboth.1

theorem paired (h : Tidy node) : Paired node := h.mono fun _ hboth => hboth.2

theorem holds (h : Tidy node) (hchild : child ∈ node.children) :
    node.kind.holds child.kind child.role = true := h.here.1 child hchild

theorem of_mem (h : Tidy node) (hchild : child ∈ node.children) : Tidy child :=
  Throughout.of_mem h hchild

/-! ### Made over -/

/-- A node made over from a tidy one is tidy: it is of the same kind, its children are comments
    or stand in the place of former ones, and each former child has its role filled. -/
theorem remade {next : Node} (h : Tidy node) (hkind : next.kind = node.kind)
    (hchildren : ∀ child ∈ next.children, Tidy child ∧
      (child.kind = .comment ∧ child.role = none ∨
        ∃ former ∈ node.children, child.kind = former.kind ∧ child.role = former.role))
    (hfilled : ∀ former ∈ node.children, ∃ child ∈ next.children, child.role = former.role) :
    Tidy next := by
  refine .intro ⟨?_, ?_⟩ fun child hchild => (hchildren child hchild).1
  · intro child hchild
    rcases (hchildren child hchild).2 with ⟨hcomment, hrole⟩ | ⟨former, hformer, hsame, hrole⟩
    · rw [hcomment, hrole]
      cases next.kind <;> rfl
    · rw [hkind, hsame, hrole]
      exact h.holds hformer
  · intro hpair
    obtain ⟨value, hvalue⟩ := Option.isSome_iff_exists.1 (h.here.2 (hkind ▸ hpair))
    obtain ⟨child, hchild, hrole⟩ := hfilled value (Node.mem_children_of_part? hvalue)
    unfold Node.part?
    rw [List.find?_isSome]
    exact ⟨child, hchild, beq_iff_eq.2 (hrole.trans (Node.role_of_part? hvalue))⟩

theorem remade_self {next : Node} (h : Tidy node) (hkind : next.kind = node.kind)
    (hchildren : next.children = node.children) : Tidy next := by
  refine h.remade hkind ?_ ?_
  · intro child hchild
    rw [hchildren] at hchild
    exact ⟨h.of_mem hchild, Or.inr ⟨child, hchild, rfl, rfl⟩⟩
  · intro former hformer
    exact ⟨former, hchildren ▸ hformer, rfl⟩

/-- A node in a role is asked for what stands below it only. -/
theorem as (h : Tidy node) (role : Role) : Tidy (node.as role) := h.remade_self rfl rfl

end Tidy

namespace Node

variable {node added : Node}

/-! ### Patterns -/

def patternKind : Kind → Kind
  | .object => .objectPattern
  | .array => .arrayPattern
  | .pair => .pairPattern
  | .spreadElement => .restPattern
  | .assignmentExpression => .assignmentPattern
  | .shorthandPropertyIdentifier => .shorthandPropertyIdentifierPattern
  | kind => kind

@[simp] theorem kind_toPattern (node : Node) : node.toPattern.kind = patternKind node.kind := by
  obtain ⟨_, kind, _, _, _, _, _⟩ := node
  cases kind <;> rfl

@[simp] theorem role_toPattern (node : Node) : node.toPattern.role = node.role := by
  obtain ⟨_, kind, _, _, _, _, _⟩ := node
  cases kind <;> rfl

/-- The parts of a pattern are those of the expression, some of them turned into patterns. -/
theorem children_toPattern (node : Node) : node.toPattern.children = node.children ∨
    node.toPattern.children = node.children.map toPattern := by
  obtain ⟨_, kind, _, _, _, _, children⟩ := node
  cases kind
  case object | array | pair | spreadElement => exact Or.inr (toPatterns_eq children)
  all_goals exact Or.inl rfl

/-- As a pattern a node may stand wherever it might, and holds whatever it might. -/
theorem holds_patternKind {parent kind : Kind} {role : Option Role}
    (h : parent.holds kind role = true) : (patternKind parent).holds kind role = true ∧
      (patternKind parent).holds (patternKind kind) role = true := by
  have hparent : (patternKind parent).holdsStatements = parent.holdsStatements ∧
      (parent.holdsMethods = true → (patternKind parent).holdsMethods = true) := by
    cases parent <;> decide
  have hkind : (patternKind kind).isFunctionDeclaration = kind.isFunctionDeclaration ∧
      ((patternKind kind != .methodDefinition) = (kind != .methodDefinition)) ∧
      ((patternKind kind != .comment) = (kind != .comment)) ∧
      ((patternKind kind == .arguments) = (kind == .arguments)) ∧
      ((patternKind kind == .templateString) = (kind == .templateString)) ∧
      ((patternKind kind == .formalParameters) = (kind == .formalParameters)) := by
    cases kind <;> decide
  obtain ⟨hstatements, hmethods⟩ := hparent
  obtain ⟨h1, h2, h3, h4, h5, h6⟩ := hkind
  unfold Kind.holds at h ⊢
  rw [hstatements, h1, h2, h3, h4, h5, h6]
  simp only [Bool.and_eq_true, Bool.or_eq_true] at h ⊢
  obtain ⟨⟨⟨⟨hdeclaration, hmethod⟩, hcomment⟩, harguments⟩, hparameters⟩ := h
  have hmethod' := hmethod.imp_right hmethods
  exact ⟨⟨⟨⟨⟨hdeclaration, hmethod'⟩, hcomment⟩, harguments⟩, hparameters⟩,
    ⟨⟨⟨hdeclaration, hmethod'⟩, hcomment⟩, harguments⟩, hparameters⟩

/-- The pattern that a tidy expression spells is tidy. -/
theorem tidy_toPattern (h : Tidy node) : Tidy node.toPattern := by
  induction node using Node.induction with
  | step node ih =>
    have hpair : node.toPattern.kind ≠ .pair := by
      rw [kind_toPattern]
      cases node.kind <;> decide
    have hholds := fun child (hchild : child ∈ node.children) =>
      holds_patternKind (h.holds hchild)
    rcases node.children_toPattern with hsame | hpatterns
    · refine .intro ⟨?_, fun hkind => absurd hkind hpair⟩ ?_
      · intro child hchild
        rw [hsame] at hchild
        rw [kind_toPattern]
        exact (hholds child hchild).1
      · intro child hchild
        exact h.of_mem (hsame ▸ hchild)
    · refine .intro ⟨?_, fun hkind => absurd hkind hpair⟩ ?_
      · intro child hchild
        rw [hpatterns] at hchild
        obtain ⟨part, hpart, rfl⟩ := List.mem_map.1 hchild
        rw [kind_toPattern, kind_toPattern, role_toPattern]
        exact (hholds part hpart).2
      · intro child hchild
        rw [hpatterns] at hchild
        obtain ⟨part, hpart, rfl⟩ := List.mem_map.1 hchild
        exact ih part hpart (h.of_mem hpart)

/-! ### Comments -/

theorem children_insert (added node : Node) :
    (insert added node).children = insertAmong added node.children ∧
      (insert added node).kind = node.kind ∧ (insert added node).role = node.role := by
  cases node
  exact ⟨rfl, rfl, rfl⟩

/-- Among siblings a node is set beside them or into one of them. -/
theorem mem_insertAmong {children : List Node} {child : Node} :
    child ∈ insertAmong added children →
      child = added ∨ child ∈ children ∨ ∃ former ∈ children, child = insert added former := by
  induction children with
  | nil =>
    intro h
    exact Or.inl (List.mem_singleton.1 h)
  | cons first rest ih =>
    unfold insertAmong
    split
    · intro h
      exact (List.mem_cons.1 h).imp_right Or.inl
    · split
      · intro h
        rcases List.mem_cons.1 h with rfl | h
        · exact Or.inr (Or.inr ⟨first, List.mem_cons_self, rfl⟩)
        · exact Or.inr (Or.inl (List.mem_cons_of_mem _ h))
      · intro h
        rcases List.mem_cons.1 h with rfl | h
        · exact Or.inr (Or.inl List.mem_cons_self)
        · rcases ih h with hadded | hrest | ⟨former, hformer, heq⟩
          · exact Or.inl hadded
          · exact Or.inr (Or.inl (List.mem_cons_of_mem _ hrest))
          · exact Or.inr (Or.inr ⟨former, List.mem_cons_of_mem _ hformer, heq⟩)

/-- No sibling goes; one of them may have the node set into it. -/
theorem exists_mem_insertAmong (added : Node) {children : List Node} {former : Node}
    (h : former ∈ children) :
    former ∈ insertAmong added children ∨ insert added former ∈ insertAmong added children := by
  induction children with
  | nil => cases h
  | cons first rest ih =>
    unfold insertAmong
    split
    · exact Or.inl (List.mem_cons_of_mem _ h)
    · split
      · rcases List.mem_cons.1 h with rfl | h
        · exact Or.inr List.mem_cons_self
        · exact Or.inl (List.mem_cons_of_mem _ h)
      · rcases List.mem_cons.1 h with rfl | h
        · exact Or.inl List.mem_cons_self
        · exact (ih h).imp (List.mem_cons_of_mem _) (List.mem_cons_of_mem _)

/-- A comment may be set into a tidy tree. -/
theorem tidy_insert (hadded : Tidy added) (hcomment : added.kind = .comment)
    (hrole : added.role = none) (h : Tidy node) : Tidy (insert added node) := by
  induction node using Node.induction with
  | step node ih =>
    obtain ⟨hchildren, hkind, -⟩ := children_insert added node
    refine h.remade hkind ?_ ?_
    · intro child hchild
      rw [hchildren] at hchild
      rcases mem_insertAmong hchild with rfl | hformer | ⟨former, hformer, rfl⟩
      · exact ⟨hadded, Or.inl ⟨hcomment, hrole⟩⟩
      · exact ⟨h.of_mem hformer, Or.inr ⟨child, hformer, rfl, rfl⟩⟩
      · obtain ⟨-, hsame, hfilled⟩ := children_insert added former
        exact ⟨ih former hformer (h.of_mem hformer), Or.inr ⟨former, hformer, hsame, hfilled⟩⟩
    · intro former hformer
      rw [hchildren]
      rcases exists_mem_insertAmong added hformer with hmem | hmem
      · exact ⟨former, hmem, rfl⟩
      · exact ⟨_, hmem, (children_insert added former).2.2⟩

/-! ### Numbers -/

theorem children_numberFrom (node : Node) (next : Nat) :
    (numberFrom next node).1.children = (numberAllFrom (next + 1) node.children).1 ∧
      (numberFrom next node).1.kind = node.kind ∧ (numberFrom next node).1.role = node.role := by
  cases node
  exact ⟨rfl, rfl, rfl⟩

theorem mem_numberAllFrom {children : List Node} {next : Nat} {child : Node}
    (h : child ∈ (numberAllFrom next children).1) :
    ∃ former ∈ children, ∃ first, child = (numberFrom first former).1 := by
  induction children generalizing next with
  | nil => cases h
  | cons first rest ih =>
    simp only [numberAllFrom] at h
    rcases List.mem_cons.1 h with rfl | h
    · exact ⟨first, List.mem_cons_self, next, rfl⟩
    · obtain ⟨former, hformer, hnumbered⟩ := ih h
      exact ⟨former, List.mem_cons_of_mem _ hformer, hnumbered⟩

theorem exists_mem_numberAllFrom {children : List Node} {former : Node} (h : former ∈ children)
    (next : Nat) : ∃ first, (numberFrom first former).1 ∈ (numberAllFrom next children).1 := by
  induction children generalizing next with
  | nil => cases h
  | cons head rest ih =>
    simp only [numberAllFrom]
    rcases List.mem_cons.1 h with rfl | h
    · exact ⟨next, List.mem_cons_self⟩
    · obtain ⟨first, hfirst⟩ := ih h (numberFrom next head).2
      exact ⟨first, List.mem_cons_of_mem _ hfirst⟩

/-- A tidy tree stays tidy when it is numbered. -/
theorem tidy_numberFrom (h : Tidy node) (next : Nat) : Tidy (numberFrom next node).1 := by
  induction node using Node.induction generalizing next with
  | step node ih =>
    obtain ⟨hchildren, hkind, -⟩ := node.children_numberFrom next
    refine h.remade hkind ?_ ?_
    · intro child hchild
      rw [hchildren] at hchild
      obtain ⟨former, hformer, first, rfl⟩ := mem_numberAllFrom hchild
      obtain ⟨-, hsame, hrole⟩ := former.children_numberFrom first
      exact ⟨ih former hformer (h.of_mem hformer) first, Or.inr ⟨former, hformer, hsame, hrole⟩⟩
    · intro former hformer
      rw [hchildren]
      obtain ⟨first, hmem⟩ := exists_mem_numberAllFrom hformer (next + 1)
      exact ⟨_, hmem, (former.children_numberFrom first).2.2⟩

end Node

end Capabilities.Script
