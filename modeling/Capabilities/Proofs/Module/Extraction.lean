import Capabilities.Module.Declaration
import Capabilities.Proofs.Module.Scans
import Mathlib.Data.List.Induction

/-!
# The last declaration counts

What a module declares is found in one walk over its tree, parents first; each assignment of an
array to the property of an owner takes the place of what was found before. So the last such
assignment in pre-order decides, also if it stands inside the array or the function that another
one assigns. What is declared by a row of siblings is told by those from some point on, and only if
these declare nothing by those before.
-/

namespace Capabilities.Module

open Script Node

/-- A node assigns an array to a direction's property of one of the owners. -/
structure AssignsList (direction : Direction) (owners : List String) (node array : Node) :
    Prop where
  kind : node.kind = .assignmentExpression
  left : ∃ left object property, node.part? .left = some left ∧ left.kind = .memberExpression ∧
    left.part? .object = some object ∧ object.kind = .identifier ∧ object.lexeme ∈ owners ∧
    left.part? .property = some property ∧ property.kind.isName = true ∧
    property.lexeme = direction.property
  right : node.part? .right = some array
  array : array.kind = .array

/-- What was found last, if anything was found. -/
def Declaration.or : Declaration → Declaration → Declaration
  | .declared names, _ => .declared names
  | .undeclared, earlier => earlier

/-- What a node declares by itself. -/
def ownDeclaration (direction : Direction) (owners : List String) (node : Node) : Declaration :=
  match declaredNames? direction owners node with
  | some names => .declared names
  | none => .undeclared

/-- What is declared when the nodes of a list have been read one after the other. -/
def lastDeclaration (direction : Direction) (owners : List String) (found : Declaration)
    (nodes : List Node) : Declaration :=
  nodes.foldl (fun found node => (ownDeclaration direction owners node).or found) found

@[simp] theorem Declaration.or_undeclared (later : Declaration) : later.or .undeclared = later := by
  cases later <;> rfl

@[simp] theorem Declaration.undeclared_or (earlier : Declaration) :
    Declaration.undeclared.or earlier = earlier := rfl

theorem Declaration.or_eq_undeclared_iff {later earlier : Declaration} :
    later.or earlier = .undeclared ↔ later = .undeclared ∧ earlier = .undeclared := by
  cases later <;> simp [Declaration.or]

theorem Declaration.or_eq_declared_iff {later earlier : Declaration} {names : List String} :
    later.or earlier = .declared names ↔
      later = .declared names ∨ later = .undeclared ∧ earlier = .declared names := by
  cases later <;> simp [Declaration.or]

theorem Declaration.or_assoc (last later earlier : Declaration) :
    (last.or later).or earlier = last.or (later.or earlier) := by
  cases last <;> rfl

variable {direction : Direction} {owners : List String} {found : Declaration} {node : Node}

theorem declaredNames?_eq_some_iff {names : List String} :
    declaredNames? direction owners node = some names ↔
      ∃ array, AssignsList direction owners node array ∧ arrayNames array = names := by
  constructor
  · intro h
    unfold declaredNames? at h
    dsimp only at h
    split at h
    · cases h
    next hkind =>
    obtain ⟨left, hleft, h⟩ := Option.bind_eq_some_iff.1 h
    split at h
    · cases h
    next hmember =>
    obtain ⟨object, hobject, h⟩ := Option.bind_eq_some_iff.1 h
    obtain ⟨property, hproperty, h⟩ := Option.bind_eq_some_iff.1 h
    split at h
    · cases h
    next howner =>
    split at h
    · cases h
    next hname =>
    obtain ⟨array, hright, h⟩ := Option.bind_eq_some_iff.1 h
    split at h
    · cases h
    next harray =>
    rw [Bool.or_eq_true, not_or] at howner
    obtain ⟨hspelled, hlexeme⟩ := identifierName?_eq_some_iff.1 (by simpa using hname)
    exact ⟨array, ⟨by simpa using hkind, ⟨left, object, property, hleft, by simpa using hmember,
      hobject, by simpa using howner.1, by simpa using howner.2, hproperty, hspelled, hlexeme⟩,
      hright, by simpa using harray⟩, Option.some.inj h⟩
  · rintro ⟨array, ⟨hkind, ⟨left, object, property, hleft, hmember, hobject, hidentifier, howner,
      hproperty, hspelled, hlexeme⟩, hright, harray⟩, rfl⟩
    have hname := identifierName?_eq_some_iff.2 ⟨hspelled, hlexeme⟩
    simp [declaredNames?, hkind, hleft, hmember, hobject, hproperty, hidentifier, howner, hname,
      hright, harray]

/-! ### The walk -/

theorem lastDeclaration_append (found : Declaration) (front back : List Node) :
    lastDeclaration direction owners found (front ++ back) =
      lastDeclaration direction owners (lastDeclaration direction owners found front) back :=
  List.foldl_append

/-- A tree is read node by node in pre-order: induction on the tree, and along siblings. -/
theorem declarationAfter_eq (found : Declaration) (node : Node) :
    declarationAfter direction owners found node =
      lastDeclaration direction owners found node.nodes := by
  refine Node.rec
    (motive_1 := fun node => ∀ found, declarationAfter direction owners found node =
      lastDeclaration direction owners found node.nodes)
    (motive_2 := fun children => ∀ found, declarationAfterAll direction owners found children =
      lastDeclaration direction owners found (nodesOfAll children)) ?_ ?_ ?_ node found
  · intro id kind role start stop lexeme children ih found
    simp only [declarationAfter, nodes, ih]
    rw [lastDeclaration, lastDeclaration, List.foldl_cons, ownDeclaration]
    cases declaredNames? direction owners ⟨id, kind, role, start, stop, lexeme, children⟩ <;> rfl
  · intro found
    rfl
  · intro child rest ihChild ihRest found
    simp only [declarationAfterAll, nodesOfAll]
    split
    · exact ihRest found
    · rw [ihRest, ihChild, lastDeclaration_append]

theorem declarationAfterAll_eq (found : Declaration) (children : List Node) :
    declarationAfterAll direction owners found children =
      lastDeclaration direction owners found (nodesOfAll children) := by
  induction children generalizing found with
  | nil => rfl
  | cons child rest ih =>
    simp only [declarationAfterAll, nodesOfAll]
    split
    · exact ih found
    · rw [ih, declarationAfter_eq, lastDeclaration_append]

theorem declarationAfterAll_append (found : Declaration) (front back : List Node) :
    declarationAfterAll direction owners found (front ++ back) =
      declarationAfterAll direction owners (declarationAfterAll direction owners found front)
        back := by
  have hnodes : nodesOfAll (front ++ back) = nodesOfAll front ++ nodesOfAll back := by
    simp only [nodesOfAll_eq, List.filter_append, List.flatMap_append]
  simp only [declarationAfterAll_eq, hnodes, lastDeclaration_append]

/-- What was found ahead counts only if nothing is declared behind it. -/
theorem lastDeclaration_eq_or (found : Declaration) (nodes : List Node) :
    lastDeclaration direction owners found nodes =
      (lastDeclaration direction owners .undeclared nodes).or found := by
  induction nodes using List.reverseRecOn with
  | nil => rfl
  | append_singleton nodes node ih =>
    rw [lastDeclaration_append, lastDeclaration_append, ih]
    exact (Declaration.or_assoc _ _ _).symm

theorem lastDeclaration_concat (nodes : List Node) (node : Node) :
    lastDeclaration direction owners .undeclared (nodes ++ [node]) =
      (ownDeclaration direction owners node).or
        (lastDeclaration direction owners .undeclared nodes) := by
  rw [lastDeclaration_append]
  rfl

theorem ownDeclaration_eq_undeclared_iff :
    ownDeclaration direction owners node = .undeclared ↔
      ∀ array, ¬AssignsList direction owners node array := by
  unfold ownDeclaration
  cases hnames : declaredNames? direction owners node with
  | none =>
    refine ⟨fun _ array harray => ?_, fun _ => rfl⟩
    rw [declaredNames?_eq_some_iff.2 ⟨array, harray, rfl⟩] at hnames
    cases hnames
  | some names =>
    obtain ⟨array, harray, -⟩ := declaredNames?_eq_some_iff.1 hnames
    refine ⟨fun h => ?_, fun h => absurd harray (h array)⟩
    cases h

theorem ownDeclaration_eq_declared_iff {names : List String} :
    ownDeclaration direction owners node = .declared names ↔
      ∃ array, AssignsList direction owners node array ∧ arrayNames array = names := by
  rw [← declaredNames?_eq_some_iff, ownDeclaration]
  cases declaredNames? direction owners node <;> simp

theorem lastDeclaration_eq_undeclared_iff {nodes : List Node} :
    lastDeclaration direction owners .undeclared nodes = .undeclared ↔
      ∀ node ∈ nodes, ∀ array, ¬AssignsList direction owners node array := by
  induction nodes using List.reverseRecOn with
  | nil => simp [lastDeclaration]
  | append_singleton nodes node ih =>
    rw [lastDeclaration_concat, Declaration.or_eq_undeclared_iff, ownDeclaration_eq_undeclared_iff,
      ih]
    simp only [List.mem_append, List.mem_singleton]
    constructor
    · rintro ⟨hnode, hnodes⟩ other (hother | rfl)
      · exact hnodes other hother
      · exact hnode
    · exact fun h => ⟨h node (Or.inr rfl), fun other hother => h other (Or.inl hother)⟩

/-- The last assignment is the last node, or there is none at the last node. -/
theorem lastDeclaration_eq_declared_iff {nodes : List Node} {names : List String} :
    lastDeclaration direction owners .undeclared nodes = .declared names ↔
      ∃ front node back, nodes = front ++ node :: back ∧
        (∃ array, AssignsList direction owners node array ∧ arrayNames array = names) ∧
        ∀ later ∈ back, ¬∃ array, AssignsList direction owners later array := by
  induction nodes using List.reverseRecOn with
  | nil => simp [lastDeclaration]
  | append_singleton nodes node ih =>
    rw [lastDeclaration_concat, Declaration.or_eq_declared_iff, ownDeclaration_eq_undeclared_iff,
      ownDeclaration_eq_declared_iff, ih]
    constructor
    · rintro (hnode | ⟨hnode, front, other, back, rfl, hother, hback⟩)
      · exact ⟨nodes, node, [], rfl, hnode, fun _ h => absurd h List.not_mem_nil⟩
      · refine ⟨front, other, back ++ [node], by simp, hother, fun later hlater => ?_⟩
        rcases List.mem_append.1 hlater with hlater | hlater
        · exact hback later hlater
        · rintro ⟨array, harray⟩
          exact hnode array (List.mem_singleton.1 hlater ▸ harray)
    · rintro ⟨front, other, back, heq, hother, hback⟩
      rcases List.eq_nil_or_concat back with rfl | ⟨back, last, rfl⟩
      · obtain ⟨-, hsame⟩ := List.append_inj' heq rfl
        cases hsame
        exact Or.inl hother
      · rw [List.concat_eq_append, ← List.cons_append, ← List.append_assoc] at heq
        obtain ⟨rfl, hsame⟩ := List.append_inj' heq rfl
        cases hsame
        rw [List.concat_eq_append] at hback
        exact Or.inr ⟨fun array harray => hback node (by simp) ⟨array, harray⟩, front, other, back,
          rfl, hother, fun later hlater => hback later (List.mem_append_left _ hlater)⟩

/-! ### What counts -/

/-- A module declares nothing just if no node of its tree assigns an array to the property of an
    owner. Else it declares the strings, none of them empty, of the array that is assigned by the
    last such node in pre-order, as often and in the order as they stand there. So for a node whose
    children are split in two groups the second group counts, if it declares anything, else the
    first, else the node itself; and what declares nothing may be left out. -/
theorem declaration_last (direction : Direction) (owners : List String) (root : Node) :
    (declaration direction owners root = .undeclared ↔
      ∀ position node array, root.at? position = some node →
        ¬AssignsList direction owners node array) ∧
      (∀ names, declaration direction owners root = .declared names ↔
        ∃ position node, root.at? position = some node ∧
          (∃ array, AssignsList direction owners node array ∧
            (array.parts.filterMap stringValue?).filter (· != "") = names) ∧
          ∀ behind later, position < behind → root.at? behind = some later →
            ¬∃ array, AssignsList direction owners later array) ∧
      (∀ first second, root.children = first ++ second →
        declaration direction owners root =
          ((declarationAfterAll direction owners .undeclared second).or
            (declarationAfterAll direction owners .undeclared first)).or
              (ownDeclaration direction owners root)) ∧
      ∀ child, declaration direction owners child = .undeclared → ∀ found front back,
        declarationAfter direction owners found child = found ∧
          declarationAfterAll direction owners found (front ++ child :: back) =
            declarationAfterAll direction owners found (front ++ back) := by
  refine ⟨?_, fun names => ?_, fun first second hchildren => ?_,
    fun child hchild found front back => ?_⟩
  · rw [declaration, declarationAfter_eq, lastDeclaration_eq_undeclared_iff]
    constructor
    · exact fun h position node array hnode => h node (mem_nodes_iff.2 ⟨position, hnode⟩) array
    · intro h node hnode array
      obtain ⟨position, hnode⟩ := mem_nodes_iff.1 hnode
      exact h position node array hnode
  · rw [declaration, declarationAfter_eq, lastDeclaration_eq_declared_iff]
    exact exists_last_iff
  · have hnodes : root.nodes = root :: (nodesOfAll first ++ nodesOfAll second) := by
      simp only [nodes_eq root, parts, hchildren, nodesOfAll_eq, List.filter_append,
        List.flatMap_append]
    rw [declaration, declarationAfter_eq, hnodes, lastDeclaration, List.foldl_cons,
      Declaration.or_undeclared]
    change lastDeclaration direction owners (ownDeclaration direction owners root) _ = _
    rw [lastDeclaration_append, lastDeclaration_eq_or, lastDeclaration_eq_or (ownDeclaration _ _ _),
      declarationAfterAll_eq, declarationAfterAll_eq, Declaration.or_assoc]
  · have hskip : ∀ found, declarationAfter direction owners found child = found := by
      intro found
      rw [declaration, declarationAfter_eq] at hchild
      rw [declarationAfter_eq, lastDeclaration_eq_or, hchild]
      rfl
    refine ⟨hskip found, ?_⟩
    rw [declarationAfterAll_append, declarationAfterAll_append found]
    simp only [declarationAfterAll, hskip, ite_self]

end Capabilities.Module
