import Capabilities.Types.Scope

/-!
# Reading a store after a change

Each operation of the store is described by what can be read afterwards: which type stands at an
id and which value. Nothing after this module unfolds an operation.
-/

namespace Capabilities.Types.Store

variable (store : Store)

/-! ### Growing -/

theorem type?_pushType (shape : TypeShape) (type : TypeId) :
    (store.pushType shape).2.type? type =
      if type.index = store.types.size then some shape else store.type? type := by
  simp only [type?, pushType, Array.getElem?_push]

theorem value?_newValue (value : ValueId) :
    store.newValue.2.value? value =
      if value.index = store.values.size then some .empty else store.value? value := by
  simp only [value?, newValue, Array.getElem?_push]

@[simp] theorem value?_pushType (shape : TypeShape) (value : ValueId) :
    (store.pushType shape).2.value? value = store.value? value := rfl

@[simp] theorem type?_newValue (type : TypeId) :
    store.newValue.2.type? type = store.type? type := rfl

theorem isSome_type?_iff (type : TypeId) :
    (store.type? type).isSome = true ↔ type.index < store.types.size := by
  simp [type?]

theorem isSome_value?_iff (value : ValueId) :
    (store.value? value).isSome = true ↔ value.index < store.values.size := by
  simp [value?]

theorem exists_type? {type : TypeId} (h : type.index < store.types.size) :
    ∃ shape, store.type? type = some shape :=
  Option.isSome_iff_exists.1 ((store.isSome_type?_iff type).2 h)

theorem exists_value? {value : ValueId} (h : value.index < store.values.size) :
    ∃ held, store.value? value = some held :=
  Option.isSome_iff_exists.1 ((store.isSome_value?_iff value).2 h)

theorem lt_of_type? {store : Store} {type : TypeId} {shape : TypeShape}
    (h : store.type? type = some shape) : type.index < store.types.size :=
  (store.isSome_type?_iff type).1 (by rw [h]; rfl)

/-! ### Changing a value -/

@[simp] theorem type?_modifyValue (value : ValueId) (change : AbstractValue → AbstractValue)
    (type : TypeId) : (store.modifyValue value change).type? type = store.type? type := rfl

theorem value?_modifyValue (value other : ValueId) (change : AbstractValue → AbstractValue) :
    (store.modifyValue value change).value? other =
      if other = value then (store.value? other).map change else store.value? other := by
  obtain ⟨i⟩ := value
  obtain ⟨j⟩ := other
  simp only [value?, modifyValue, Array.getElem?_modify, ValueId.mk.injEq]
  by_cases h : i = j
  · rw [if_pos h, if_pos h.symm]
  · rw [if_neg h, if_neg (Ne.symm h)]

@[simp] theorem values_size_modifyValue (value : ValueId)
    (change : AbstractValue → AbstractValue) :
    (store.modifyValue value change).values.size = store.values.size := by
  simp [modifyValue]

@[simp] theorem types_modifyValue (value : ValueId) (change : AbstractValue → AbstractValue) :
    (store.modifyValue value change).types = store.types := rfl

/-- A change that does nothing to the value as it is changes nothing. -/
theorem modifyValue_of_fixed {value : ValueId} {held : AbstractValue}
    {change : AbstractValue → AbstractValue} (h : store.value? value = some held)
    (hfixed : change held = held) : store.modifyValue value change = store := by
  obtain ⟨types, values⟩ := store
  simp only [modifyValue, Store.mk.injEq, true_and]
  apply Array.ext_getElem?
  intro index
  rw [Array.getElem?_modify]
  split
  · rename_i heq
    subst heq
    rw [show values[value.index]? = some held from h]
    simp [hfixed]
  · rfl

theorem modifyValue_modifyValue (value : ValueId) (first second : AbstractValue → AbstractValue) :
    (store.modifyValue value first).modifyValue value second =
      store.modifyValue value fun held => second (first held) := by
  simp only [modifyValue, Store.mk.injEq, true_and]
  apply Array.ext_getElem?
  intro index
  simp only [Array.getElem?_modify]
  split
  · cases store.values[index]? <;> rfl
  · rfl

/-! ### Putting a type in the place of another -/

def setType (type : TypeId) (shape : TypeShape) : Store :=
  { store with types := store.types.setIfInBounds type.index shape }

theorem type?_setType (type other : TypeId) (shape : TypeShape)
    (h : type.index < store.types.size) :
    (store.setType type shape).type? other =
      if other = type then some shape else store.type? other := by
  obtain ⟨i⟩ := type
  obtain ⟨j⟩ := other
  simp only [type?, setType, Array.getElem?_setIfInBounds, TypeId.mk.injEq]
  by_cases heq : i = j
  · subst heq
    rw [if_pos rfl, if_pos rfl, if_pos h]
  · rw [if_neg heq, if_neg (Ne.symm heq)]

@[simp] theorem value?_setType (type : TypeId) (shape : TypeShape) (value : ValueId) :
    (store.setType type shape).value? value = store.value? value := rfl

@[simp] theorem values_setType (type : TypeId) (shape : TypeShape) :
    (store.setType type shape).values = store.values := rfl

@[simp] theorem types_size_setType (type : TypeId) (shape : TypeShape) :
    (store.setType type shape).types.size = store.types.size := by
  simp [setType]

/-! ### The operations that may be refused -/

def withType (type : TypeId) (held : AbstractValue) : AbstractValue :=
  { held with types := insertNew held.types type }

def withoutType (type : TypeId) (held : AbstractValue) : AbstractValue :=
  { held with types := held.types.filter (· != type) }

def withMember (name : String) (member : ValueId) (held : AbstractValue) : AbstractValue :=
  { held with members := held.members.put name member }

theorem addType_eq {value : ValueId} {type : TypeId} {held : AbstractValue}
    (ht : type.index < store.types.size) (hv : store.value? value = some held) :
    store.addType value type =
      (.ok (!held.types.contains type), store.modifyValue value (withType type)) := by
  have hnone : (store.type? type).isNone = false := by
    obtain ⟨shape, hs⟩ := store.exists_type? ht
    rw [hs]
    rfl
  unfold addType
  rw [hnone, hv]
  rfl

theorem removeType_eq {value : ValueId} {type : TypeId} {held : AbstractValue}
    (hv : store.value? value = some held) :
    store.removeType value type =
      (.ok (held.types.contains type), store.modifyValue value (withoutType type)) := by
  unfold removeType
  rw [hv]
  rfl

theorem setEnumeration_eq {value : ValueId} {names : List String} {held : AbstractValue}
    (hv : store.value? value = some held) :
    store.setEnumeration value names =
      (.ok (), store.modifyValue value fun held => { held with enumeration := some names }) := by
  unfold setEnumeration
  rw [hv]

theorem object?_eq_some {type : TypeId} {object : ObjectType}
    (h : store.type? type = some (.object object)) : store.object? type = some object := by
  unfold object?
  rw [h]

theorem type?_of_object? {type : TypeId} {object : ObjectType}
    (h : store.object? type = some object) : store.type? type = some (.object object) := by
  unfold object? at h
  split at h
  · rename_i found hfound
    rw [hfound, Option.some.inj h]
  · cases h

def documented (doc : String) : TypeShape → TypeShape
  | .object type => .object { type with doc := some doc }
  | .function type => .function { type with doc := some doc }
  | .primitive type => .primitive type

theorem type?_setDoc (type other : TypeId) (doc : String) :
    (store.setDoc type doc).type? other =
      if other = type then (store.type? other).map (documented doc) else store.type? other := by
  obtain ⟨i⟩ := type
  obtain ⟨j⟩ := other
  simp only [type?, setDoc, Array.getElem?_modify, TypeId.mk.injEq]
  by_cases h : i = j
  · subst h
    rw [if_pos rfl, if_pos rfl]
    rfl
  · rw [if_neg h, if_neg (Ne.symm h)]

theorem setDoc_eq {type : TypeId} {object : ObjectType} (doc : String)
    (ho : store.object? type = some object) :
    store.setDoc type doc = store.setType type (.object { object with doc := some doc }) := by
  have htype : store.types[type.index]? = some (.object object) := store.type?_of_object? ho
  have hlt := lt_of_type? (store.type?_of_object? ho)
  simp only [setDoc, setType, Store.mk.injEq, and_true]
  apply Array.ext_getElem?
  intro index
  rw [Array.getElem?_modify, Array.getElem?_setIfInBounds]
  by_cases h : type.index = index
  · subst h
    rw [if_pos rfl, if_pos rfl, if_pos hlt, htype]
    rfl
  · rw [if_neg h, if_neg h]

theorem type?_of_result? {type : TypeId} {value : ValueId}
    (h : store.result? type = some value) :
    ∃ function, store.type? type = some (.function function) ∧ function.result = value := by
  unfold result? at h
  split at h
  · rename_i found hfound
    exact ⟨found, hfound, Option.some.inj h⟩
  · cases h

theorem ensureMember_present {type : TypeId} {object : ObjectType} {name : String}
    {member : ValueId} (ho : store.object? type = some object)
    (hm : object.members.get? name = some member) :
    store.ensureMember type name = (.ok member, store) := by
  unfold ensureMember
  rw [ho]
  simp only [hm]

theorem ensureMember_absent {type : TypeId} {object : ObjectType} {name : String}
    (ho : store.object? type = some object) (hm : object.members.get? name = none) :
    store.ensureMember type name =
      (.ok ⟨store.values.size⟩, store.newValue.2.setType type
        (.object { object with members := object.members.put name ⟨store.values.size⟩ })) := by
  unfold ensureMember
  rw [ho]
  simp only [hm]
  rfl

theorem valueMember_present {value : ValueId} {held : AbstractValue} {name : String}
    {member : ValueId} (hv : store.value? value = some held)
    (hm : held.members.get? name = some member) :
    store.valueMember value name = (.ok member, store) := by
  unfold valueMember
  rw [hv]
  simp only [hm]

theorem valueMember_absent {value : ValueId} {held : AbstractValue} {name : String}
    (hv : store.value? value = some held) (hm : held.members.get? name = none) :
    store.valueMember value name =
      (.ok ⟨store.values.size⟩,
        store.newValue.2.modifyValue value (withMember name ⟨store.values.size⟩)) := by
  unfold valueMember
  rw [hv]
  simp only [hm]
  rfl

/-! ### What a value holds -/

theorem typesOf_eq {value : ValueId} {held : AbstractValue} (h : store.value? value = some held) :
    store.typesOf value = held.types := by
  simp [typesOf, h]

theorem typesOf_of_value?_eq {first second : Store} {value other : ValueId}
    (h : first.value? value = second.value? other) :
    first.typesOf value = second.typesOf other := by
  simp [typesOf, h]

theorem mem_insertNew {α : Type} [BEq α] [LawfulBEq α] {items : List α} {item other : α} :
    other ∈ insertNew items item ↔ other ∈ items ∨ other = item := by
  unfold insertNew
  by_cases h : item ∈ items
  · have hc : items.contains item = true := by simpa using h
    rw [if_pos hc]
    constructor
    · intro ho
      exact Or.inl ho
    · rintro (ho | rfl)
      · exact ho
      · exact h
  · have hc : ¬items.contains item = true := by simpa using h
    rw [if_neg hc]
    simp

theorem mem_foldl_insertNew {α : Type} [BEq α] [LawfulBEq α] {items found : List α} {other : α} :
    other ∈ items.foldl insertNew found ↔ other ∈ found ∨ other ∈ items := by
  induction items generalizing found with
  | nil => simp
  | cons item rest ih =>
    rw [List.foldl_cons, ih, mem_insertNew, List.mem_cons, or_assoc]

theorem insertNew_of_mem {α : Type} [BEq α] [LawfulBEq α] {items : List α} {item : α}
    (h : item ∈ items) : insertNew items item = items := by
  unfold insertNew
  rw [if_pos (by simpa using h)]

end Capabilities.Types.Store
