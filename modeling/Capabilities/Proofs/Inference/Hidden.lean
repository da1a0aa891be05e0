import Capabilities.Proofs.Inference.Disciplined
import Capabilities.Proofs.Inference.Twins

/-!
# A type that nothing holds

While an object literal is read, its type is held by no value yet. So whatever the parts of the
literal do, they cannot reach the type, and it stays as it is.
-/

namespace Capabilities.Inference

open Script Capabilities.Types

/-- A run in which a type has a shape, and neither is it held by a value nor remembered for a
    declaration. -/
structure Hidden (type : TypeId) (shape : TypeShape) where
  run : Run
  apart : ∀ primitive, Store.primitive primitive ≠ type
  shaped : run.store.type? type = some shape
  unheld : ∀ value, type ∉ run.store.typesOf value
  unremembered : ∀ entry ∈ run.functions, entry.2 ≠ type

namespace Hidden

variable {type : TypeId} {shape : TypeShape}

/-- All that is to be known is that the type is hidden. -/
instance : Preorder (Hidden type shape) where
  le _ _ := True
  le_refl _ := trivial
  le_trans _ _ _ _ _ := trivial

/-! ### Steps -/

def withStore (world : Hidden type shape) (next : Store)
    (htype : next.type? type = world.run.store.type? type)
    (hheld : ∀ value, type ∉ next.typesOf value) : Hidden type shape :=
  ⟨{ world.run with store := next }, world.apart, htype.trans world.shaped, hheld,
    world.unremembered⟩

theorem filled {target : ValueId} {types : List TypeId} {next : Store}
    (world : Hidden type shape) (h : Store.Filled target types world.run.store next)
    (htypes : type ∉ types) :
    ∃ later, world ≤ later ∧ later.run = { world.run with store := next } := by
  refine ⟨world.withStore next (h.type? type) fun value hheld => ?_, trivial, rfl⟩
  rcases h.mem_typesOf hheld with hold | ⟨-, hnew⟩
  · exact world.unheld value hold
  · exact htypes hnew

def withValue (world : Hidden type shape) : Hidden type shape :=
  world.withStore world.run.store.newValue.2 rfl fun value hheld =>
    world.unheld value (Store.typesOf_newValue value ▸ hheld)

theorem lt (world : Hidden type shape) : type.index < world.run.store.types.size :=
  Store.lt_of_type? world.shaped

def withType (world : Hidden type shape) (added : TypeShape) : Hidden type shape :=
  world.withStore (world.run.store.pushType added).2 (Store.type?_pushType_of_lt world.lt)
    world.unheld

theorem pushType_ne (world : Hidden type shape) (added : TypeShape) :
    (world.run.store.pushType added).1 ≠ type := by
  intro hsame
  exact Nat.ne_of_lt world.lt (congrArg TypeId.index hsame).symm

theorem keeps_newValue {world : Hidden type shape} :
    Keeps Hidden.run world newValue fun _ _ => True :=
  .growing fun world _ => ⟨world.withValue, trivial, rfl, trivial⟩

theorem keeps_newObject {world : Hidden type shape} (name origin : Option String) :
    Keeps Hidden.run world (growing (·.newObject name origin)) fun _ made => made ≠ type :=
  .growing fun world _ => ⟨world.withType _, trivial, rfl, world.pushType_ne _⟩

theorem keeps_functionType {world : Hidden type shape} (place : Place) (node : Node) :
    Keeps Hidden.run world (functionType place node) fun _ made => made ≠ type :=
  .growing fun world _ => ⟨world.withValue.withType _, trivial, rfl, world.withValue.pushType_ne _⟩

theorem keeps_addType {world : Hidden type shape} {value : ValueId} {added : TypeId}
    (h : added ≠ type) : Keeps Hidden.run world (addType value added) fun _ _ => True :=
  .addType fun world _ _ hfilled =>
    world.filled hfilled fun hmem => h (List.mem_singleton.1 hmem).symm

theorem keeps_propagate {world : Hidden type shape} {source target : ValueId} :
    Keeps Hidden.run world (propagate source target) fun _ _ => True :=
  .propagate fun world _ _ hfilled => world.filled hfilled (world.unheld source)

theorem keeps_valueOf {world : Hidden type shape} {added : TypeId} (h : added ≠ type) :
    Keeps Hidden.run world (valueOf added) fun _ _ => True :=
  .bind keeps_newValue fun _ _ _ _ => .bind (keeps_addType h) fun _ _ _ _ =>
    .pure fun _ _ => trivial

theorem keeps_ensureMember {world : Hidden type shape} {object : TypeId} (name : String)
    (h : object ≠ type) : Keeps Hidden.run world (ensureMember object name) fun _ _ => True := by
  refine .onStore fun world _ member next hrun => ?_
  obtain ⟨found, hobject, ⟨-, rfl⟩ | ⟨-, -, rfl⟩⟩ := Store.ensureMember_ok hrun
  · exact ⟨world, trivial, rfl, trivial⟩
  · refine ⟨world.withStore _ ?_ fun value hheld => ?_, trivial, rfl, trivial⟩
    · rw [Store.type?_addMember name hobject, if_neg h.symm]
    · rw [Store.typesOf_addMember] at hheld
      exact world.unheld value hheld

def withTables (world : Hidden type shape) (scopes : Scopes) (expressions : List (Nat × ValueId))
    (functions : List (Nat × TypeId)) (h : ∀ entry ∈ functions, entry.2 ≠ type) :
    Hidden type shape :=
  ⟨⟨world.run.store, scopes, expressions, functions⟩, world.apart, world.shaped, world.unheld, h⟩

theorem keeps_declare {world : Hidden type shape} (scope : ScopeId) (name : String) :
    Keeps Hidden.run world (declare scope name) fun _ _ => True := by
  refine .declare (fun _ _ => trivial) (fun _ _ _ _ => trivial) fun world _ _ _ _ => ?_
  exact ⟨world.withValue.withTables _ _ _ world.unremembered, trivial, rfl, trivial⟩

theorem keeps_note {world : Hidden type shape} (id : Nat) (value : ValueId) :
    Keeps Hidden.run world (note id value) fun _ _ => True :=
  .change fun world _ => ⟨world.withTables _ _ _ world.unremembered, trivial, rfl⟩

theorem keeps_registerScope {world : Hidden type shape} (id : ScopeId) (parent : Option ScopeId) :
    Keeps Hidden.run world (registerScope id parent) fun _ _ => True :=
  .change fun world _ => ⟨world.withTables _ _ _ world.unremembered, trivial, rfl⟩

theorem keeps_remember {world : Hidden type shape} (id : Nat) {made : TypeId} (h : made ≠ type) :
    Keeps Hidden.run world (remember id made) fun _ _ => True := by
  refine .change fun world _ =>
    ⟨world.withTables world.run.scopes world.run.expressions ((id, made) :: world.run.functions) ?_,
      trivial, rfl⟩
  intro entry hentry
  rcases List.mem_cons.1 hentry with rfl | hentry
  · exact h
  · exact world.unremembered entry hentry

/-- Nothing reaches a hidden type. -/
def discipline (type : TypeId) (shape : TypeShape) :
    Discipline (Hidden type shape) Hidden.run where
  stands _ parent node _ := Placed parent ∧ node ∈ parent.parts
  declarable _ _ := True
  target _ _ := True
  usable _ used := used ≠ type
  made _ _ made := made ≠ type
  result _ _ _ := True
  noted _ _ _ := True
  stands_mono _ h := h
  target_mono _ h := h
  usable_mono _ h := h
  made_mono _ h := h
  result_mono _ h := h
  below h := h
  inner h _ hchild := ⟨h.1.of_mem (Node.mem_children_of_mem_parts h.2), hchild⟩
  parameter h _ _ hchild := by
    have hplaced := h.1.of_mem (Node.mem_children_of_mem_parts h.2)
    exact ⟨hplaced, Node.mem_parts_of_part? hplaced.aside hchild⟩
  body h _ _ hchild := by
    have hplaced := h.1.of_mem (Node.mem_children_of_mem_parts h.2)
    exact ⟨hplaced, Node.mem_parts_of_part? hplaced.aside hchild⟩
  ownName _ _ _ _ := trivial
  boundName _ _ _ _ := trivial
  functionName _ _ _ := trivial
  variableName _ _ _ := trivial
  assignedName _ _ _ _ _ := trivial
  declare _ := (keeps_declare _ _).mono fun _ _ _ _ _ _ => trivial
  lookup _ := trivial
  registerScope _ := keeps_registerScope _ _
  newValue := keeps_newValue
  addType _ htype := keeps_addType htype
  propagate _ := keeps_propagate
  newObject name origin := keeps_newObject name origin
  ensureMember name hobject := keeps_ensureMember name hobject
  primitive := fun {world} primitive => world.apart primitive
  held := fun {world value _} hheld hsame => world.unheld value (hsame ▸ hheld)
  functionType _ _ := keeps_functionType _ _
  usable_of_made h := h
  remember h := keeps_remember _ h
  remembered := fun {world _ _ _ _} _ hfound => world.unremembered _ (mem_of_lookup hfound)
  resultOf := by
    intro world node made _
    refine .look (fun _ => rfl) fun later _ => ?_
    cases later.run.store.result? made with
    | none => exact keeps_newValue
    | some result => exact .pure fun _ _ => trivial
  answer _ _ _ _ _ _ := keeps_propagate
  return' := by
    intro world parent node place child answered _ _ _ _
    cases hresult : place.result with
    | none => exact .done
    | some result => exact keeps_propagate
  noteFunction _ _ hmade := .bind (keeps_valueOf hmade) fun _ _ _ _ =>
    .bind (keeps_note _ _) fun _ _ _ _ => .pure fun _ _ => trivial
  noteTarget _ _ _ := keeps_note _ _
  noteValue := by
    intro world parent node place _ hvalue
    rw [meaning_eq]
    exact .bind hvalue fun _ _ _ _ => .bind (keeps_note _ _) fun _ _ _ _ =>
      .pure fun _ _ => trivial

end Hidden

end Capabilities.Inference
