import Capabilities.Proofs.Inference.Hidden
import Capabilities.Proofs.Types.Additions
import Capabilities.Resolver.Synthesis
import Mathlib.Data.List.Induction

/-!
# The members of an object literal

The value of an object literal has a type with one member for each key that can be read off the
literal, in the order in which the keys are written, repetitions left out. Synthesis reads the same
keys off the tree.

Each part adds the key it is read to have and no other: whatever else it does cannot reach the
type, which is hidden until the literal is finished.
-/

namespace Capabilities.Inference

open Script Capabilities.Types

variable {α β : Type} {type : TypeId} {keys more : List String}

/-! ### Steps that add members -/

/-- A step adds keys to the members of a hidden object type, those that are new behind the
    others. -/
def Adds (type : TypeId) (step : Infer α) (keys : List String) : Prop :=
  ∀ (found : ObjectType) (world : Hidden type (.object found)) (answer : α) (next : Run),
    step.run.run world.run = (.ok answer, next) →
    ∃ (filled : ObjectType) (later : Hidden type (.object filled)), later.run = next ∧
      filled.members.keys = keys.foldl Store.insertNew found.members.keys

namespace Adds

theorem pure (answer : α) : Adds type (Pure.pure answer : Infer α) [] := by
  intro found world answer next hrun
  cases hrun
  exact ⟨found, world, rfl, rfl⟩

theorem bind {step : Infer α} {next : α → Infer β} (h : Adds type step keys)
    (hnext : ∀ answer, Adds type (next answer) more) :
    Adds type (step >>= next) (keys ++ more) := by
  intro found world answer last hrun
  obtain ⟨first, middle, hfirst, hrest⟩ := eq_ok_of_bind hrun
  obtain ⟨between, later, rfl, hkeys⟩ := h found world first middle hfirst
  obtain ⟨filled, final, hfinal, hmore⟩ := hnext first between later answer last hrest
  exact ⟨filled, final, hfinal, by rw [hmore, hkeys, List.foldl_append]⟩

/-- A step that does not reach the type adds nothing. -/
theorem of_keeps {step : Infer α} {good : {shape : TypeShape} → Hidden type shape → α → Prop}
    (h : ∀ (shape : TypeShape) (world : Hidden type shape), Keeps Hidden.run world step good) :
    Adds type step [] := by
  intro found world answer next hrun
  obtain ⟨later, -, hlater, -⟩ := h _ world world (le_refl _) answer next hrun
  exact ⟨found, later, hlater, rfl⟩

theorem ensureMember (type : TypeId) (name : String) :
    Adds type (Inference.ensureMember type name) [name] := by
  intro found world member next hrun
  obtain ⟨store, hstore, rfl⟩ := eq_ok_of_onStore hrun
  obtain ⟨object, hobject, hcase⟩ := Store.ensureMember_ok hstore
  rw [world.run.store.object?_eq_some world.shaped] at hobject
  cases hobject
  rcases hcase with ⟨hname, rfl⟩ | ⟨hname, -, rfl⟩
  · have hmem : name ∈ found.members.keys := by
      rw [Keyed.mem_keys_iff, hname]
      rfl
    exact ⟨found, world, rfl, (Store.insertNew_of_mem hmem).symm⟩
  · have hmem : name ∉ found.members.keys := by
      rw [Keyed.mem_keys_iff, hname]
      simp
    have hadded := Store.type?_addMember name (world.run.store.object?_eq_some world.shaped) type
    rw [if_pos rfl] at hadded
    refine ⟨_, ⟨{ world.run with store := world.run.store.addMember type found name }, world.apart,
      hadded, fun value hheld => ?_, world.unremembered⟩, rfl, ?_⟩
    · rw [Store.typesOf_addMember] at hheld
      exact world.unheld value hheld
    · simp [Keyed.keys_put, Store.insertNew, hmem]

theorem forM {ι : Type} {items : List ι} {each : ι → Infer Unit} {keyOf : ι → Option String}
    (h : ∀ item ∈ items, Adds type (each item) (keyOf item).toList) :
    Adds type (items.forM each) (items.filterMap keyOf) := by
  induction items with
  | nil => exact pure ()
  | cons item rest ih =>
    have hboth := bind (h item List.mem_cons_self)
      fun _ => ih fun other hother => h other (List.mem_cons_of_mem _ hother)
    have hkeys : (item :: rest).filterMap keyOf = (keyOf item).toList ++ rest.filterMap keyOf := by
      rw [List.filterMap_cons]
      cases keyOf item <;> rfl
    rw [hkeys]
    exact hboth

end Adds

/-! ### The parts of a literal -/

theorem adds_fillMember (type : TypeId) (name : String) (source : ValueId) :
    Adds type (Meaning.fillMember type name source) [name] :=
  .bind (.ensureMember type name) fun _ => .of_keeps fun _ _ => Hidden.keeps_propagate

/-- A part of an object literal adds the key it is read to have. -/
theorem adds_addTo {node child : Node} (hplaced : Placed node) (hpaired : Paired node)
    (hkind : node.kind = .object) (hchild : child ∈ node.parts) (place : Place) :
    Adds type ((meaning child).addTo type place) (Resolver.memberKey? child).toList := by
  have hmem := Node.mem_children_of_mem_parts hchild
  have hbelow := hplaced.of_mem hmem
  have hsettled : ∀ shape, Meaning.Settled (Hidden.discipline type shape) child :=
    fun shape part _ => meaning_disciplined _ part
  have hstands : ∀ shape world,
      (Hidden.discipline type shape).stands world node child place := fun _ _ => ⟨hplaced, hchild⟩
  rw [meaning_eq]
  change Adds type (Meaning.objectMember child (Meaning.family child) place type) _
  unfold Meaning.objectMember
  split
  case h_1 hpair =>
    obtain ⟨value, hvalue⟩ := Option.isSome_iff_exists.1 ((hpaired.of_mem hmem).here hpair)
    have hpart := Node.mem_parts_of_part? hbelow.aside hvalue
    have hevaluate : Adds type ((meaning value).evaluate place) [] :=
      .of_keeps fun shape world =>
        (meaning_disciplined (Hidden.discipline type shape) value).evaluate world child place
          ⟨hbelow, hpart⟩ (standing_of_mem hbelow (by rw [hpair]; rfl) hpart)
    have hkey : Resolver.memberKey? child = (child.part? .key).bind Node.keyName? := by
      unfold Resolver.memberKey?
      rw [hpair]
    rw [Meaning.part?_family, hvalue, hkey]
    refine .bind hevaluate fun found => ?_
    cases (child.part? .key).bind Node.keyName? with
    | none => exact .pure ()
    | some key => exact adds_fillMember type key found
  case h_2 hname =>
    have hkey : Resolver.memberKey? child = some child.lexeme := by
      unfold Resolver.memberKey? Node.keyName? Node.identifierName?
      rw [hname]
      rfl
    rw [hkey]
    change Adds type _ ([child.lexeme] ++ [])
    refine .bind (.ensureMember type child.lexeme) fun member => ?_
    refine .of_keeps fun shape world => (?_ : Keeps Hidden.run world _ fun _ _ => True)
    refine .look (fun _ => rfl) fun later _ => ?_
    cases later.run.scopes.lookup? place.scope child.lexeme with
    | none => exact .done
    | some found => exact Hidden.keeps_propagate
  case h_3 hmethod =>
    have hkeeps : node.keeps child = true := by
      unfold Node.keeps
      rw [hmethod, hkind]
      rfl
    have hfunction : Adds type (Meaning.function child (Meaning.family child) place) [] :=
      .of_keeps fun shape world => Meaning.keeps_function (hsettled shape)
        (hstands shape world) hkeeps
    have hkey : Resolver.memberKey? child = (child.part? .name).bind Node.keyName? := by
      unfold Resolver.memberKey?
      rw [hmethod]
    rw [hkey]
    refine .bind hfunction fun found => ?_
    cases (child.part? .name).bind Node.keyName? with
    | none => exact .pure ()
    | some key => exact adds_fillMember type key found
  case h_4 hpair hname hmethod =>
    have hkey : Resolver.memberKey? child = none := by
      unfold Resolver.memberKey?
      split
      · exact absurd ‹_› hpair
      · exact absurd ‹_› hmethod
      · exact absurd ‹_› hname
      · rfl
    rw [hkey]
    exact .of_keeps fun shape world => Meaning.keeps_statement (hsettled shape)
      (hstands shape world) fun hsame => absurd hsame hmethod

/-! ### The whole literal -/

theorem foldl_insertNew_nil (keys : List String) :
    keys.foldl Store.insertNew [] = keys.eraseDups := by
  induction keys using List.reverseRecOn with
  | nil => rfl
  | append_singleton keys key ih =>
    rw [List.foldl_append, List.foldl_cons, List.foldl_nil, ih, Store.eraseDups_concat]

/-- A value holds an object type first, and the type has just these members. -/
def HasMembers (store : Store) (value : ValueId) (type : TypeId) (keys : List String) : Prop :=
  store.firstType? value = some type ∧
    ∃ object, store.object? type = some object ∧ object.members.keys = keys

/-- All that a run names is in its store. -/
structure Run.Closed (run : Run) : Prop where
  primitives : run.store.HasPrimitives
  held : ∀ value type, type ∈ run.store.typesOf value → type.index < run.store.types.size
  remembered : ∀ entry ∈ run.functions, entry.2.index < run.store.types.size

def Run.Closed.hidden {run : Run} (h : run.Closed) (name origin : Option String) :
    Hidden (run.store.newObject name origin).1 (.object ⟨name, .empty, none, origin⟩) where
  run := { run with store := (run.store.newObject name origin).2 }
  apart primitive hsame :=
    Nat.ne_of_lt (Store.lt_of_type? (h.primitives primitive)) (congrArg TypeId.index hsame)
  shaped := (run.store.type?_pushType _ _).trans (if_pos rfl)
  unheld value hheld := Nat.lt_irrefl _ (h.held value _ hheld)
  unremembered entry hentry hsame :=
    Nat.ne_of_lt (h.remembered entry hentry) (congrArg TypeId.index hsame)

/-- The value of an object literal has a new type with one member for each key that is read off
    the literal, in the order of the keys. -/
theorem hasMembers_of_evaluate {node : Node} {place : Place} {run next : Run} {value : ValueId}
    (hplaced : Placed node) (hpaired : Paired node) (hkind : node.kind = .object)
    (hclosed : run.Closed)
    (h : ((meaning node).evaluate place).run.run run = (.ok value, next)) :
    HasMembers next.store value ⟨run.store.types.size⟩
      (Resolver.ObjectLiteral.ofNode node).keys.eraseDups := by
  have hvalue : Meaning.valueByKind node (Meaning.family node) place =
      Meaning.objectValue (Meaning.family node) place := by
    unfold Meaning.valueByKind
    rw [hkind]
  have hadds : ∀ type, Adds type
      ((Meaning.family node).parts.forM fun child => child.2.addTo type place)
      (node.parts.filterMap Resolver.memberKey?) := by
    intro type
    have hparts : (Meaning.family node).parts.filterMap (fun child => Resolver.memberKey? child.1) =
        node.parts.filterMap Resolver.memberKey? := by
      rw [Meaning.parts_family, List.filterMap_map]
      rfl
    rw [← hparts]
    refine .forM fun child hchild => ?_
    rw [Meaning.parts_family] at hchild
    obtain ⟨part, hpart, rfl⟩ := List.mem_map.1 hchild
    exact adds_addTo hplaced hpaired hkind hpart place
  rw [meaning_eq] at h
  obtain ⟨found, noted, hfound, h⟩ := eq_ok_of_bind h
  cases h
  rw [hvalue] at hfound
  obtain ⟨type, made, hmade, hfound⟩ := eq_ok_of_bind hfound
  cases hmade
  obtain ⟨_, filled, hfilled, hfound⟩ := eq_ok_of_bind hfound
  obtain ⟨object, later, rfl, hkeys⟩ :=
    hadds _ _ (hclosed.hidden none (some place.file)) () filled hfilled
  obtain ⟨store, rfl, -, hflow, htypes⟩ := eq_ok_of_valueOf hfound
  refine ⟨?_, object, ?_, hkeys.trans (foldl_insertNew_nil _)⟩
  · unfold Store.firstType?
    rw [htypes]
    rfl
  · exact store.object?_eq_some ((hflow.type? _).trans later.shaped)

end Capabilities.Inference
