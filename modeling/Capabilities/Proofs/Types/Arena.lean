import Capabilities.Proofs.Types.Places
import Mathlib.Data.List.Nodup
import Mathlib.Logic.Relation

/-!
# The arena under any operations

A client of the store calls its operations in any order and with any ids, known or not. What an
operation may do is said once: it is refused and leaves the store as it is, or it is a row of
changes of nine kinds. Every change keeps the store well formed and only extends it, so every run
of operations does.
-/

namespace Capabilities.Types

inductive Operation where
  | newValue
  | newObject (name origin : Option String)
  | newFunction (name : Option String) (parameters : List String) (origin : Option String)
  | addType (value : ValueId) (type : TypeId)
  | removeType (value : ValueId) (type : TypeId)
  | propagate (source target : ValueId)
  | ensureMember (object : TypeId) (name : String)
  | valueMember (value : ValueId) (name : String)
  | setEnumeration (value : ValueId) (names : List String)
  | setDoc (type : TypeId) (doc : String)
deriving DecidableEq, Repr

/-- An answer of which only counts whether it is a refusal. -/
def Store.settled {α : Type} : Except StoreError α × Store → Except StoreError Unit × Store
  | (answer, store) => (answer.map fun _ => (), store)

/-- Whether an operation is refused, and the store as it leaves it. -/
def Operation.apply (store : Store) : Operation → Except StoreError Unit × Store
  | .newValue => (.ok (), store.newValue.2)
  | .newObject name origin => (.ok (), (store.newObject name origin).2)
  | .newFunction name parameters origin => (.ok (), (store.newFunction name parameters origin).2)
  | .addType value type => Store.settled (store.addType value type)
  | .removeType value type => Store.settled (store.removeType value type)
  | .propagate source target => Store.settled (store.propagate source target)
  | .ensureMember object name => Store.settled (store.ensureMember object name)
  | .valueMember value name => Store.settled (store.valueMember value name)
  | .setEnumeration value names => Store.settled (store.setEnumeration value names)
  | .setDoc type doc => (.ok (), store.setDoc type doc)

namespace Store

/-- The store after operations, each on the store that the one before it left. -/
def run (store : Store) (operations : List Operation) : Store :=
  operations.foldl (fun store operation => (operation.apply store).2) store

@[simp] theorem run_nil (store : Store) : store.run [] = store := rfl

@[simp] theorem run_cons (store : Store) (operation : Operation) (operations : List Operation) :
    store.run (operation :: operations) = (operation.apply store).2.run operations := rfl

/-! ### What an operation may do -/

/-- One change of a store. A type is taken out of a value only if it is `released` from it. -/
inductive Change (released : ValueId → TypeId → Prop) (store : Store) : Store → Prop
  | value : Change released store store.newValue.2
  | object (name origin : Option String) : Change released store (store.newObject name origin).2
  | function (name : Option String) (parameters : List String) (origin : Option String) :
      Change released store (store.newFunction name parameters origin).2
  | hold (value : ValueId) {type : TypeId} (htype : type.index < store.types.size) :
      Change released store (store.modifyValue value (withType type))
  | release {value : ValueId} {type : TypeId} (hreleased : released value type) :
      Change released store (store.modifyValue value (withoutType type))
  | member {type : TypeId} {object : ObjectType} {name : String}
      (hobject : store.object? type = some object) (hname : object.members.get? name = none) :
      Change released store (store.addMember type object name)
  | property {value : ValueId} {held : AbstractValue} {name : String}
      (hvalue : store.value? value = some held) (hname : held.members.get? name = none) :
      Change released store (store.addProperty value name)
  | enumerate (value : ValueId) (names : List String) :
      Change released store
        (store.modifyValue value fun held => { held with enumeration := some names })
  | document (type : TypeId) (doc : String) : Change released store (store.setDoc type doc)

abbrev Changes (released : ValueId → TypeId → Prop) : Store → Store → Prop :=
  Relation.ReflTransGen (Change released)

/-- A refusal with the store as it was, or an answer after changes. -/
inductive Outcome (released : ValueId → TypeId → Prop) (store : Store) {α : Type} :
    Except StoreError α × Store → Prop
  | refused (error : StoreError) : Outcome released store (.error error, store)
  | done (answer : α) {next : Store} (h : Changes released store next) :
      Outcome released store (.ok answer, next)

variable {store next : Store} {released : ValueId → TypeId → Prop}

theorem Outcome.settled {α : Type} {outcome : Except StoreError α × Store}
    (h : Outcome released store outcome) : Outcome released store (settled outcome) := by
  cases h with
  | refused error => exact .refused error
  | done answer h => exact .done () h

theorem Outcome.changes {α : Type} {outcome : Except StoreError α × Store}
    (h : Outcome released store outcome) : Changes released store outcome.2 := by
  cases h with
  | refused error => exact .refl
  | done answer h => exact h

theorem Outcome.eq_of_error {α : Type} {outcome : Except StoreError α × Store} {error : StoreError}
    (h : Outcome released store outcome) (herror : outcome.1 = .error error) :
    outcome.2 = store := by
  cases h with
  | refused error => rfl
  | done answer h => cases herror

theorem outcome_addType (value : ValueId) (type : TypeId) :
    Outcome released store (store.addType value type) := by
  by_cases htype : type.index < store.types.size
  · cases hvalue : store.value? value with
    | none =>
      obtain ⟨shape, hshape⟩ := store.exists_type? htype
      unfold addType
      simp only [hshape, hvalue]
      exact .refused _
    | some held =>
      rw [addType_eq store htype hvalue]
      exact .done _ (.single (.hold value htype))
  · have hnone : store.type? type = none := by
      simpa [type?] using htype
    unfold addType
    simp only [hnone]
    exact .refused _

theorem outcome_removeType {value : ValueId} {type : TypeId} (h : released value type) :
    Outcome released store (store.removeType value type) := by
  cases hvalue : store.value? value with
  | none =>
    unfold removeType
    simp only [hvalue]
    exact .refused _
  | some held =>
    rw [removeType_eq store hvalue]
    exact .done _ (.single (.release h))

theorem addTypes_ok {target : ValueId} {held : AbstractValue} {types : List TypeId}
    (htarget : store.value? target = some held)
    (htypes : ∀ type ∈ types, type.index < store.types.size) :
    ∃ next, store.addTypes target types = (.ok (), next) ∧ Changes released store next := by
  induction types generalizing store held with
  | nil => exact ⟨store, rfl, .refl⟩
  | cons type rest ih =>
    have htype := htypes type List.mem_cons_self
    have hheld : (store.modifyValue target (withType type)).value? target =
        some (withType type held) := by
      rw [value?_modifyValue, if_pos rfl, htarget]
      rfl
    obtain ⟨next, heq, hchanges⟩ := ih hheld fun other hother =>
      htypes other (List.mem_cons_of_mem _ hother)
    refine ⟨next, ?_, .head (.hold target htype) hchanges⟩
    unfold addTypes
    rw [addType_eq store htype htarget]
    exact heq

/-- The types of the source are all known, so only the target can be missing, and that shows
    before the first of them is added. -/
theorem outcome_propagate (source target : ValueId)
    (hheld : ∀ value type, type ∈ store.typesOf value → type.index < store.types.size) :
    Outcome released store (store.propagate source target) := by
  unfold propagate
  cases hsource : store.value? source with
  | none => exact .refused _
  | some held =>
    have htypes : ∀ type ∈ held.types, type.index < store.types.size := by
      intro type htype
      exact hheld source type (by rw [typesOf_eq store hsource]; exact htype)
    cases htarget : store.value? target with
    | some into =>
      obtain ⟨next, heq, hchanges⟩ := addTypes_ok htarget htypes
      simp only [heq]
      exact .done () hchanges
    | none =>
      change Outcome released store (store.addTypes target held.types)
      cases hlist : held.types with
      | nil => exact .done () .refl
      | cons type rest =>
        obtain ⟨shape, hshape⟩ :=
          store.exists_type? (htypes type (hlist ▸ List.mem_cons_self))
        simp only [addTypes, addType, hshape, htarget, Option.isNone_some, Bool.false_eq_true,
          if_false]
        exact .refused _

theorem outcome_ensureMember (type : TypeId) (name : String) :
    Outcome released store (store.ensureMember type name) := by
  cases hobject : store.object? type with
  | none =>
    unfold ensureMember
    simp only [hobject]
    exact .refused _
  | some object =>
    cases hname : object.members.get? name with
    | some member =>
      rw [ensureMember_present store hobject hname]
      exact .done _ .refl
    | none =>
      rw [ensureMember_absent store hobject hname]
      exact .done _ (.single (.member hobject hname))

theorem outcome_valueMember (value : ValueId) (name : String) :
    Outcome released store (store.valueMember value name) := by
  cases hvalue : store.value? value with
  | none =>
    unfold valueMember
    simp only [hvalue]
    exact .refused _
  | some held =>
    cases hname : held.members.get? name with
    | some member =>
      rw [valueMember_present store hvalue hname]
      exact .done _ .refl
    | none =>
      rw [valueMember_absent store hvalue hname]
      exact .done _ (.single (.property hvalue hname))

theorem outcome_setEnumeration (value : ValueId) (names : List String) :
    Outcome released store (store.setEnumeration value names) := by
  cases hvalue : store.value? value with
  | none =>
    unfold setEnumeration
    simp only [hvalue]
    exact .refused _
  | some held =>
    rw [setEnumeration_eq store hvalue]
    exact .done _ (.single (.enumerate value names))

/-- Everything an operation may do, whatever the ids it is given, to a store that holds no types
    it does not have. -/
theorem outcome_apply (operation : Operation)
    (hheld : ∀ value type, type ∈ store.typesOf value → type.index < store.types.size) :
    Outcome (fun value type => operation = .removeType value type) store
      (operation.apply store) := by
  cases operation with
  | newValue => exact .done () (.single .value)
  | newObject name origin => exact .done () (.single (.object name origin))
  | newFunction name parameters origin =>
    exact .done () (.single (.function name parameters origin))
  | addType value type => exact (outcome_addType value type).settled
  | removeType value type => exact (outcome_removeType rfl).settled
  | propagate source target => exact (outcome_propagate source target hheld).settled
  | ensureMember object name => exact (outcome_ensureMember object name).settled
  | valueMember value name => exact (outcome_valueMember value name).settled
  | setEnumeration value names => exact (outcome_setEnumeration value names).settled
  | setDoc type doc => exact .done () (.single (.document type doc))

end Store

/-! ### What a change makes of a value and of a type -/

/-- What a change makes of a value that was there. -/
inductive AbstractValue.Renews (releases : TypeId → Prop) (held : AbstractValue) :
    AbstractValue → Prop
  | same : Renews releases held held
  | hold (type : TypeId) : Renews releases held (Store.withType type held)
  | release {type : TypeId} (h : releases type) : Renews releases held (Store.withoutType type held)
  | member {name : String} (member : ValueId) (h : held.members.get? name = none) :
      Renews releases held (Store.withMember name member held)
  | enumerate (names : List String) : Renews releases held { held with enumeration := some names }

/-- What a change makes of a type that was there. -/
inductive TypeShape.Renews (shape : TypeShape) : TypeShape → Prop
  | same : Renews shape shape
  | document (doc : String) : Renews shape (Store.documented doc shape)
  | member {object : ObjectType} {name : String} (member : ValueId)
      (hshape : shape = .object object) (h : object.members.get? name = none) :
      Renews shape (.object { object with members := object.members.put name member })

namespace Store

variable {store next : Store} {released : ValueId → TypeId → Prop}

theorem value?_eq_none_of_modifyValue {value other : ValueId}
    {change : AbstractValue → AbstractValue} (h : store.value? value = none) :
    (store.modifyValue other change).value? value = none := by
  rw [value?_modifyValue, h]
  split <;> rfl

theorem renews_modifyValue {releases : TypeId → Prop} {value other : ValueId}
    {held : AbstractValue} {change : AbstractValue → AbstractValue}
    (hvalue : store.value? value = some held)
    (hchange : value = other → held.Renews releases (change held)) :
    ∃ new, (store.modifyValue other change).value? value = some new ∧
      held.Renews releases new := by
  rw [value?_modifyValue, hvalue]
  by_cases heq : value = other
  · rw [if_pos heq]
    exact ⟨_, rfl, hchange heq⟩
  · rw [if_neg heq]
    exact ⟨_, rfl, .same⟩

theorem value?_newValue_of_some {value : ValueId} {held : AbstractValue}
    (h : store.value? value = some held) : store.newValue.2.value? value = some held := by
  have hlt : value.index < store.values.size := (store.isSome_value?_iff value).1 (by rw [h]; rfl)
  rw [value?_newValue, if_neg (Nat.ne_of_lt hlt), h]

/-- A value that was there is there still, renewed. -/
theorem Change.value? (h : Change released store next) {value : ValueId} {held : AbstractValue}
    (hvalue : store.value? value = some held) :
    ∃ new, next.value? value = some new ∧ held.Renews (released value) new := by
  cases h with
  | value => exact ⟨held, value?_newValue_of_some hvalue, .same⟩
  | object name origin => exact ⟨held, hvalue, .same⟩
  | function name parameters origin => exact ⟨held, value?_newValue_of_some hvalue, .same⟩
  | hold other htype => exact renews_modifyValue hvalue fun _ => .hold _
  | release hreleased => exact renews_modifyValue hvalue fun heq => .release (heq ▸ hreleased)
  | member hobject hname => exact ⟨held, value?_newValue_of_some hvalue, .same⟩
  | property hother hname =>
    refine renews_modifyValue (value?_newValue_of_some hvalue) fun heq => .member _ ?_
    rw [← heq, hvalue] at hother
    exact Option.some.inj hother ▸ hname
  | enumerate other names => exact renews_modifyValue hvalue fun _ => .enumerate names
  | document type doc => exact ⟨held, hvalue, .same⟩

/-- A value that was not there holds nothing. -/
theorem Change.value?_new (h : Change released store next) {value : ValueId}
    {held : AbstractValue} (hnone : store.value? value = none)
    (hvalue : next.value? value = some held) : held = .empty := by
  have hnew : ∀ {held : AbstractValue}, store.newValue.2.value? value = some held →
      held = .empty := by
    intro held hvalue
    rw [value?_newValue, hnone] at hvalue
    split at hvalue
    · exact (Option.some.inj hvalue).symm
    · cases hvalue
  have hsame : ∀ {held : AbstractValue}, store.value? value = some held → held = .empty := by
    intro held hvalue
    rw [hnone] at hvalue
    cases hvalue
  have hmodified : ∀ {other : ValueId} {change : AbstractValue → AbstractValue},
      (store.modifyValue other change).value? value ≠ some held := by
    intro other change hvalue
    rw [value?_eq_none_of_modifyValue hnone] at hvalue
    cases hvalue
  cases h with
  | value => exact hnew hvalue
  | object name origin => exact hsame hvalue
  | function name parameters origin => exact hnew hvalue
  | hold other htype => exact absurd hvalue hmodified
  | release hreleased => exact absurd hvalue hmodified
  | member hobject hname => exact hnew hvalue
  | @property other former name hother hname =>
    have hne : value ≠ other := by
      rintro rfl
      rw [hnone] at hother
      cases hother
    have hheld : store.newValue.2.value? value = some held := by
      unfold addProperty at hvalue
      rwa [value?_modifyValue, if_neg hne] at hvalue
    exact hnew hheld
  | enumerate other names => exact absurd hvalue hmodified
  | document type doc => exact hsame hvalue

theorem type?_pushType_of_some {type : TypeId} {shape added : TypeShape}
    (h : store.type? type = some shape) : (store.pushType added).2.type? type = some shape :=
  (type?_pushType_of_lt (lt_of_type? h)).trans h

/-- A type that was there is there still, renewed. -/
theorem Change.type? (h : Change released store next) {type : TypeId} {shape : TypeShape}
    (htype : store.type? type = some shape) :
    ∃ new, next.type? type = some new ∧ shape.Renews new := by
  cases h with
  | value => exact ⟨shape, htype, .same⟩
  | object name origin => exact ⟨shape, type?_pushType_of_some htype, .same⟩
  | function name parameters origin =>
    have hnew : store.newValue.2.type? type = some shape := htype
    exact ⟨shape, type?_pushType_of_some hnew, .same⟩
  | hold value ht => exact ⟨shape, htype, .same⟩
  | release hreleased => exact ⟨shape, htype, .same⟩
  | @member other object name hobject hname =>
    have hadded := type?_addMember name hobject type
    by_cases heq : type = other
    · rw [if_pos heq] at hadded
      refine ⟨_, hadded, .member _ ?_ hname⟩
      rw [← heq, object?, htype] at hobject
      cases shape with
      | object found => exact congrArg TypeShape.object (Option.some.inj hobject)
      | function found => cases hobject
      | primitive found => cases hobject
    · rw [if_neg heq] at hadded
      exact ⟨shape, hadded.trans htype, .same⟩
  | property hvalue hname => exact ⟨shape, htype, .same⟩
  | enumerate value names => exact ⟨shape, htype, .same⟩
  | document other doc =>
    have hdoc := store.type?_setDoc other type doc
    rw [htype] at hdoc
    by_cases heq : type = other
    · rw [if_pos heq] at hdoc
      exact ⟨_, hdoc, .document doc⟩
    · rw [if_neg heq] at hdoc
      exact ⟨shape, hdoc, .same⟩

/-- A type that was not there has no members. -/
theorem Change.type?_new (h : Change released store next) {type : TypeId} {object : ObjectType}
    (hnone : store.type? type = none) (htype : next.type? type = some (.object object)) :
    object.members = .empty := by
  have hsame : store.type? type ≠ some (.object object) := by
    rw [hnone]
    exact Option.some_ne_none _ |>.symm
  cases h with
  | value => exact absurd htype hsame
  | object name origin =>
    unfold newObject at htype
    rw [type?_pushType, hnone] at htype
    split at htype
    · injection htype with hobject
      injection hobject with hobject
      rw [← hobject]
    · cases htype
  | function name parameters origin =>
    change (store.newValue.2.pushType _).2.type? type = _ at htype
    rw [type?_pushType, type?_newValue, hnone] at htype
    split at htype
    · injection htype with hobject
      cases hobject
    · cases htype
  | hold value ht => exact absurd htype hsame
  | release hreleased => exact absurd htype hsame
  | @member other found name hobject hname =>
    have hne : type ≠ other := by
      rintro rfl
      rw [object?, hnone] at hobject
      cases hobject
    rw [type?_addMember name hobject, if_neg hne] at htype
    exact absurd htype hsame
  | property hvalue hname => exact absurd htype hsame
  | enumerate value names => exact absurd htype hsame
  | document other doc =>
    rw [type?_setDoc, hnone] at htype
    split at htype <;> cases htype

end Store

/-! ### What changes keep -/

/-- No type is held twice and no member is named twice. -/
def AbstractValue.Orderly (held : AbstractValue) : Prop :=
  held.types.Nodup ∧ held.members.keys.Nodup

/-- The members of a value stand where they stood: new ones come behind them. -/
def AbstractValue.Extends (before after : AbstractValue) : Prop :=
  before.members.entries <+: after.members.entries

/-- A type is what it was but for its documentation, and its members stand where they stood: new
    ones come behind them. -/
inductive TypeShape.Extends : TypeShape → TypeShape → Prop
  | object {type : ObjectType} {members : Keyed ValueId} {doc : Option String}
      (h : type.members.entries <+: members.entries) :
      Extends (.object type) (.object { type with members := members, doc := doc })
  | function {type : FunctionType} {doc : Option String} :
      Extends (.function type) (.function { type with doc := doc })
  | primitive {type : Primitive} : Extends (.primitive type) (.primitive type)

theorem TypeShape.Extends.refl (shape : TypeShape) : shape.Extends shape := by
  cases shape with
  | object type => exact .object (List.prefix_refl _)
  | function type => exact .function
  | primitive type => exact .primitive

theorem TypeShape.Extends.trans {first second third : TypeShape} (h : first.Extends second)
    (hnext : second.Extends third) : first.Extends third := by
  cases h with
  | object h =>
    cases hnext with
    | object hnext => exact .object (h.trans hnext)
  | function =>
    cases hnext with
    | function => exact .function
  | primitive => exact hnext

/-- A member that was not there comes behind all others. -/
theorem entries_put_of_absent {members : Keyed ValueId} {name : String}
    (h : members.get? name = none) (member : ValueId) :
    members.entries <+: (members.put name member).entries := by
  rw [Keyed.put_of_get?_none member h]
  exact List.prefix_append _ _

theorem nodup_keys_put {members : Keyed ValueId} (h : members.keys.Nodup) (name : String)
    (member : ValueId) : (members.put name member).keys.Nodup := by
  rw [Keyed.keys_put]
  split
  · exact h
  · rename_i habsent
    rw [← List.concat_eq_append]
    exact h.concat habsent

theorem AbstractValue.Renews.extends {releases : TypeId → Prop} {held new : AbstractValue}
    (h : held.Renews releases new) : held.Extends new := by
  cases h with
  | same => exact List.prefix_refl _
  | hold type => exact List.prefix_refl _
  | release hreleased => exact List.prefix_refl _
  | member member hname => exact entries_put_of_absent hname member
  | enumerate names => exact List.prefix_refl _

theorem AbstractValue.Renews.orderly {releases : TypeId → Prop} {held new : AbstractValue}
    (h : held.Renews releases new) (horderly : held.Orderly) : new.Orderly := by
  obtain ⟨htypes, hmembers⟩ := horderly
  cases h with
  | same => exact ⟨htypes, hmembers⟩
  | hold type =>
    refine ⟨?_, hmembers⟩
    change (Store.insertNew held.types type).Nodup
    unfold Store.insertNew
    split
    · exact htypes
    · rename_i habsent
      rw [← List.concat_eq_append]
      exact htypes.concat fun hmem => habsent (List.contains_iff_mem.2 hmem)
  | release hreleased => exact ⟨htypes.filter _, hmembers⟩
  | member member hname => exact ⟨htypes, nodup_keys_put hmembers _ member⟩
  | enumerate names => exact ⟨htypes, hmembers⟩

/-- The types that are not released stay, in their order. -/
theorem AbstractValue.Renews.types {releases : TypeId → Prop} [DecidablePred releases]
    {held new : AbstractValue} (h : held.Renews releases new) :
    (held.types.filter fun type => ¬releases type).Sublist new.types := by
  cases h with
  | same => exact List.filter_sublist
  | hold type =>
    refine List.filter_sublist.trans ?_
    change held.types.Sublist (Store.insertNew held.types type)
    unfold Store.insertNew
    split
    · exact List.Sublist.refl _
    · exact List.sublist_append_left _ _
  | @release type hreleased =>
    refine List.monotone_filter_right _ fun other hother => ?_
    have hne : other ≠ type := by
      rintro rfl
      simp [hreleased] at hother
    exact bne_iff_ne.2 hne
  | member member hname => exact List.filter_sublist
  | enumerate names => exact List.filter_sublist

theorem TypeShape.Renews.extends {shape new : TypeShape} (h : shape.Renews new) :
    shape.Extends new := by
  cases h with
  | same => exact .refl shape
  | document doc =>
    cases shape with
    | object type => exact .object (List.prefix_refl _)
    | function type => exact .function
    | primitive type => exact .primitive
  | member member hshape hname => exact hshape ▸ .object (entries_put_of_absent hname member)

namespace Store

/-- The store is sound by itself: the primitives stand where they belong, all that it holds is in
    it, and no two places share a value. No list in it has anything twice, so its places are all
    the members and results there are. -/
structure WellFormed (store : Store) : Prop where
  sound : store.Sound fun _ => none
  value : ∀ value held, store.value? value = some held → held.Orderly
  object : ∀ type object, store.type? type = some (.object object) → object.members.keys.Nodup

/-- Nothing in a store is removed, moved or put in another order. -/
structure Extends (before after : Store) : Prop where
  type : ∀ type shape, before.type? type = some shape →
    ∃ next, after.type? type = some next ∧ shape.Extends next
  value : ∀ value held, before.value? value = some held →
    ∃ next, after.value? value = some next ∧ held.Extends next

variable {before middle after store next : Store} {locals : Variables}
  {released : ValueId → TypeId → Prop}

theorem Extends.refl (store : Store) : store.Extends store :=
  ⟨fun _ shape h => ⟨shape, h, .refl shape⟩, fun _ held h => ⟨held, h, List.prefix_refl _⟩⟩

theorem Extends.trans (h : before.Extends middle) (hnext : middle.Extends after) :
    before.Extends after := by
  constructor
  · intro type shape hshape
    obtain ⟨shape', hshape', hextends⟩ := h.type type shape hshape
    obtain ⟨shape'', hshape'', hextends'⟩ := hnext.type type shape' hshape'
    exact ⟨shape'', hshape'', hextends.trans hextends'⟩
  · intro value held hheld
    obtain ⟨held', hheld', hextends⟩ := h.value value held hheld
    obtain ⟨held'', hheld'', hextends'⟩ := hnext.value value held' hheld'
    exact ⟨held'', hheld'', List.IsPrefix.trans hextends hextends'⟩

theorem WellFormed.initial : Store.initial.WellFormed := by
  refine ⟨.initial, ?_, ?_⟩
  · intro value held h
    simp [value?, Store.initial] at h
  · intro type object h
    obtain ⟨_ | _ | _ | index⟩ := type
    all_goals cases h

theorem Change.sound (h : Change released store next) (hsound : store.Sound locals) :
    next.Sound locals := by
  cases h with
  | value => exact hsound.newValue
  | object name origin => exact hsound.newObject name origin
  | function name parameters origin => exact hsound.newFunction name parameters origin
  | hold value htype => exact hsound.withType htype
  | release hreleased => exact hsound.withoutType
  | member hobject hname => exact hsound.addMember _ hobject
  | property hvalue hname =>
    exact hsound.addProperty _ ((store.isSome_value?_iff _).1 (by rw [hvalue]; rfl))
  | enumerate value names =>
    exact hsound.modifyValue (fun _ => rfl) fun held type htype => Or.inl htype
  | document type doc => exact hsound.setDoc type doc

theorem Change.wellFormed (h : Change released store next) (hstore : store.WellFormed) :
    next.WellFormed := by
  refine ⟨h.sound hstore.sound, ?_, ?_⟩
  · intro value held hheld
    cases hformer : store.value? value with
    | none => exact h.value?_new hformer hheld ▸ ⟨List.nodup_nil, List.nodup_nil⟩
    | some former =>
      obtain ⟨new, hnew, hrenews⟩ := h.value? hformer
      cases hnew.symm.trans hheld
      exact hrenews.orderly (hstore.value value former hformer)
  · intro type object hobject
    cases hformer : store.type? type with
    | none => exact h.type?_new hformer hobject ▸ List.nodup_nil
    | some former =>
      obtain ⟨new, hnew, hrenews⟩ := h.type? hformer
      cases hnew.symm.trans hobject
      generalize hshape : TypeShape.object object = shape at hrenews
      cases hrenews with
      | same => exact hstore.object type object (hshape ▸ hformer)
      | document doc =>
        cases former with
        | object found =>
          cases hshape
          exact hstore.object type found hformer
        | function found => cases hshape
        | primitive found => cases hshape
      | member member hfound hname =>
        cases hshape
        exact nodup_keys_put (hstore.object type _ (hfound ▸ hformer)) _ member

theorem Change.extends (h : Change released store next) : store.Extends next := by
  constructor
  · intro type shape hshape
    obtain ⟨new, hnew, hrenews⟩ := h.type? hshape
    exact ⟨new, hnew, hrenews.extends⟩
  · intro value held hheld
    obtain ⟨new, hnew, hrenews⟩ := h.value? hheld
    exact ⟨new, hnew, hrenews.extends⟩

theorem Change.typesOf [∀ value, DecidablePred (released value)] (h : Change released store next)
    (value : ValueId) :
    ((store.typesOf value).filter fun type => ¬released value type).Sublist
      (next.typesOf value) := by
  cases hheld : store.value? value with
  | none => simp [Store.typesOf, hheld]
  | some held =>
    obtain ⟨new, hnew, hrenews⟩ := h.value? hheld
    rw [typesOf_eq store hheld, typesOf_eq next hnew]
    exact hrenews.types

/-! ### Runs of operations -/

theorem Changes.wellFormed (h : Changes released store next) (hstore : store.WellFormed) :
    next.WellFormed := by
  induction h with
  | refl => exact hstore
  | tail _ hchange ih => exact hchange.wellFormed ih

theorem Changes.extends (h : Changes released store next) : store.Extends next := by
  induction h with
  | refl => exact .refl store
  | tail _ hchange ih => exact ih.trans hchange.extends

theorem Changes.typesOf [∀ value, DecidablePred (released value)]
    (h : Changes released store next) (value : ValueId) :
    ((store.typesOf value).filter fun type => ¬released value type).Sublist
      (next.typesOf value) := by
  induction h with
  | refl => exact List.filter_sublist
  | tail _ hchange ih =>
    have hfiltered := ih.filter fun type => ¬released value type
    rw [List.filter_filter] at hfiltered
    simp only [Bool.and_self] at hfiltered
    exact hfiltered.trans (hchange.typesOf value)

theorem Change.mono {more : ValueId → TypeId → Prop} (h : Change released store next)
    (hmore : ∀ value type, released value type → more value type) : Change more store next := by
  cases h with
  | value => exact .value
  | object name origin => exact .object name origin
  | function name parameters origin => exact .function name parameters origin
  | hold value ht => exact .hold value ht
  | release ht => exact .release (hmore _ _ ht)
  | member hobject hname => exact .member hobject hname
  | property hvalue hname => exact .property hvalue hname
  | enumerate value names => exact .enumerate value names
  | document type doc => exact .document type doc

/-- A run is a row of changes, and takes out of a value only what one of its operations names. -/
theorem changes_run (operations : List Operation) (hstore : store.WellFormed) :
    Changes (fun value type => .removeType value type ∈ operations) store
      (store.run operations) := by
  induction operations generalizing store with
  | nil => exact .refl
  | cons operation rest ih =>
    have hfirst := (outcome_apply operation hstore.sound.held).changes
    have hrest := ih (hfirst.wellFormed hstore)
    rw [run_cons]
    refine .trans (Relation.ReflTransGen.mono ?_ _ _ hfirst)
      (Relation.ReflTransGen.mono ?_ _ _ hrest)
    · intro first second hchange
      exact hchange.mono fun value type hremove => hremove ▸ List.mem_cons_self
    · intro first second hchange
      exact hchange.mono fun value type hremove => List.mem_cons_of_mem _ hremove

theorem wellFormed_run (operations : List Operation) (h : store.WellFormed) :
    (store.run operations).WellFormed :=
  (changes_run operations h).wellFormed h

/-- After any operations with any ids on a new arena: the primitives are in their places, every id
    that is held is known, no value holds a type twice, and no two members or results share a
    value. Whatever operations come later only extend it: no type and no member goes or moves, and
    the types a value holds stay in their order but for those that are taken out of it by name.
    An operation that is refused leaves everything as it is. -/
theorem arena_of_run (operations : List Operation) :
    (initial.run operations).WellFormed ∧
      (∀ later, (initial.run operations).Extends ((initial.run operations).run later)) ∧
      (∀ later value,
        (((initial.run operations).typesOf value).filter fun type =>
            ¬.removeType value type ∈ later).Sublist
          (((initial.run operations).run later).typesOf value)) ∧
      ∀ (operation : Operation) (error : StoreError),
        (operation.apply (initial.run operations)).1 = .error error →
        (operation.apply (initial.run operations)).2 = initial.run operations := by
  have hwell : (initial.run operations).WellFormed := wellFormed_run operations .initial
  refine ⟨hwell, ?_, ?_, ?_⟩
  · intro later
    exact (changes_run later hwell).extends
  · intro later value
    exact (changes_run later hwell).typesOf value
  · intro operation error herror
    exact (outcome_apply operation hwell.sound.held).eq_of_error herror

/-- A value that holds an object is copied to a value that is not there. -/
theorem arena_of_run_refused :
    ((Operation.propagate ⟨0⟩ ⟨7⟩).apply
      (initial.run [.newValue, .newObject none none, .addType ⟨0⟩ ⟨3⟩])).2 =
        initial.run [.newValue, .newObject none none, .addType ⟨0⟩ ⟨3⟩] :=
  (arena_of_run _).2.2.2 (.propagate ⟨0⟩ ⟨7⟩) (.unknownValue ⟨7⟩) (by decide)

end Store

end Capabilities.Types
