import Capabilities.Proofs.Types.Operations

/-!
# Places

A *place* is where a value is reached from: a variable of a file, a member of an object type, the
result of a function type, or a member of another value. A store is *sound*, given the variables,
if the primitives stand where they belong, every value holds types that are there, every place
has a value that is there, and no two places share a value. So a change to the value of one place
cannot be seen from another.

Every operation of the store keeps it sound.
-/

namespace Capabilities.Types

structure Variable where
  file : String
  scope : ScopeId
  name : String
deriving DecidableEq, Repr

/-- Where a value is reached from. -/
inductive Place where
  | ofVariable (of : Variable)
  | member (object : TypeId) (name : String)
  | result (function : TypeId)
  | property (value : ValueId) (name : String)
deriving DecidableEq, Repr

abbrev Variables := Variable → Option ValueId

namespace Store

def place? (store : Store) (locals : Variables) : Place → Option ValueId
  | .ofVariable of => locals of
  | .member object name => store.member? object name
  | .result function => store.result? function
  | .property value name => (store.value? value).bind (·.members.get? name)

/-- The three primitives stand at the head of the arena. -/
def HasPrimitives (store : Store) : Prop :=
  ∀ kind, store.type? (Store.primitive kind) = some (.primitive kind)

/-- Nothing leads out of the store, and no two places share a value. -/
structure Sound (store : Store) (locals : Variables) : Prop where
  primitive : ∀ kind, store.type? (Store.primitive kind) = some (.primitive kind)
  held : ∀ value type, type ∈ store.typesOf value → type.index < store.types.size
  placed : ∀ place value, store.place? locals place = some value →
    value.index < store.values.size
  distinct : ∀ first second value, store.place? locals first = some value →
    store.place? locals second = some value → first = second

variable {store : Store} {locals : Variables}

/-- The arena that a session begins with is sound. -/
theorem Sound.initial : Store.initial.Sound fun _ => none := by
  have hmember : ∀ type name, Store.initial.member? type name = none := by
    intro type name
    obtain ⟨_ | _ | _ | index⟩ := type <;> rfl
  have hresult : ∀ type, Store.initial.result? type = none := by
    intro type
    obtain ⟨_ | _ | _ | index⟩ := type <;> rfl
  have hplace : ∀ place, Store.initial.place? (fun _ => none) place = none := by
    intro place
    cases place with
    | ofVariable of => rfl
    | member object name => exact hmember object name
    | result function => exact hresult function
    | property value name => rfl
  constructor
  · intro kind
    cases kind <;> rfl
  · intro value type h
    simp [typesOf, value?, Store.initial] at h
  · intro place value h
    rw [hplace place] at h
    cases h
  · intro first second value h
    rw [hplace first] at h
    cases h

theorem HasPrimitives.le_size (h : store.HasPrimitives) : 3 ≤ store.types.size :=
  Nat.succ_le_of_lt (lt_of_type? (h .bool))

theorem Sound.primitives_le (h : store.Sound locals) : 3 ≤ store.types.size :=
  HasPrimitives.le_size h.primitive

/-- The types read through a member are there. -/
theorem Sound.lt_of_mem_lookupMember (h : store.Sound locals) {value : ValueId} {name : String}
    {type : TypeId} (ht : type ∈ store.lookupMember value name) :
    type.index < store.types.size := by
  have hof : ∀ member : Option ValueId, type ∈ (member.map store.typesOf).getD [] →
      type.index < store.types.size := by
    intro member hmember
    cases member with
    | none => cases hmember
    | some member => exact h.held member type hmember
  unfold lookupMember at ht
  cases hheld : store.value? value with
  | none => simp [hheld] at ht
  | some held =>
    simp only [hheld, mem_foldl_insertNew, List.not_mem_nil, false_or, List.mem_append,
      List.mem_flatMap] at ht
    rcases ht with ht | ⟨owner, _, ht⟩
    · exact hof _ ht
    · exact hof _ ht

/-- A store stays sound when variables are forgotten. -/
theorem Sound.forget {fewer : Variables} (h : store.Sound locals)
    (hfewer : ∀ of value, fewer of = some value → locals of = some value) :
    store.Sound fewer := by
  have hplace : ∀ place value, store.place? fewer place = some value →
      store.place? locals place = some value := by
    intro place value hvalue
    cases place with
    | ofVariable of => exact hfewer of value hvalue
    | member object name => exact hvalue
    | result function => exact hvalue
    | property owner name => exact hvalue
  exact ⟨h.primitive, h.held,
    fun place value hvalue => h.placed place value (hplace place value hvalue),
    fun first second value hfirst hsecond =>
      h.distinct first second value (hplace first value hfirst) (hplace second value hsecond)⟩

/-- A store stays sound if at most one place is added, and it gets a new value. -/
theorem Sound.extend {next : Store} {nextVariables : Variables} (h : store.Sound locals)
    (added : Place)
    (hprimitive : ∀ kind, next.type? (Store.primitive kind) = some (.primitive kind))
    (hheld : ∀ value type, type ∈ next.typesOf value → type.index < next.types.size)
    (hsize : store.values.size ≤ next.values.size)
    (hplace : ∀ place value, next.place? nextVariables place = some value →
      store.place? locals place = some value ∨
        place = added ∧ store.values.size ≤ value.index ∧ value.index < next.values.size) :
    next.Sound nextVariables := by
  refine ⟨hprimitive, hheld, ?_, ?_⟩
  · intro place value hp
    rcases hplace place value hp with hold | ⟨_, _, hlt⟩
    · exact Nat.lt_of_lt_of_le (h.placed place value hold) hsize
    · exact hlt
  · intro first second value hfirst hsecond
    rcases hplace first value hfirst with hf | ⟨hf, hle, _⟩
    · rcases hplace second value hsecond with hs | ⟨_, hle, _⟩
      · exact h.distinct first second value hf hs
      · exact absurd (h.placed first value hf) (Nat.not_lt.2 hle)
    · rcases hplace second value hsecond with hs | ⟨hs, _, _⟩
      · exact absurd (h.placed second value hs) (Nat.not_lt.2 hle)
      · rw [hf, hs]

/-! ### Growing -/

theorem typesOf_newValue (value : ValueId) :
    store.newValue.2.typesOf value = store.typesOf value := by
  unfold typesOf
  rw [value?_newValue]
  split
  · rename_i h
    have hnone : store.value? value = none := by
      simp [value?, h]
    rw [hnone]
    rfl
  · rfl

theorem place?_newValue (place : Place) :
    store.newValue.2.place? locals place = store.place? locals place := by
  cases place with
  | ofVariable of => rfl
  | member object name => rfl
  | result function => rfl
  | property value name =>
    simp only [place?, value?_newValue]
    split
    · rename_i h
      have hnone : store.value? value = none := by
        simp [value?, h]
      rw [hnone]
      rfl
    · rfl

theorem values_size_newValue : store.newValue.2.values.size = store.values.size + 1 := by
  simp [newValue]

theorem Sound.newValue (h : store.Sound locals) : store.newValue.2.Sound locals := by
  refine h.extend (.result ⟨0⟩) h.primitive ?_ ?_ ?_
  · intro value type ht
    rw [typesOf_newValue] at ht
    exact h.held value type ht
  · rw [values_size_newValue]
    exact Nat.le_succ _
  · intro place value hp
    rw [place?_newValue] at hp
    exact Or.inl hp

/-- A new variable with a new value. -/
theorem Sound.declare {nextVariables : Variables} (h : store.Sound locals) (added : Variable)
    (hvariables : ∀ of value, nextVariables of = some value →
      locals of = some value ∨ of = added ∧ value = store.newValue.1) :
    store.newValue.2.Sound nextVariables := by
  refine h.extend (.ofVariable added) h.primitive ?_ ?_ ?_
  · intro value type ht
    rw [typesOf_newValue] at ht
    exact h.held value type ht
  · rw [values_size_newValue]
    exact Nat.le_succ _
  · intro place value hp
    cases place with
    | ofVariable of =>
      rcases hvariables of value hp with hold | ⟨rfl, rfl⟩
      · exact Or.inl hold
      · refine Or.inr ⟨rfl, Nat.le_refl _, ?_⟩
        rw [values_size_newValue]
        exact Nat.lt_succ_self _
    | member object name => exact Or.inl hp
    | result function => exact Or.inl hp
    | property owner name =>
      have hp' : store.newValue.2.place? locals (.property owner name) = some value := hp
      rw [place?_newValue] at hp'
      exact Or.inl hp'

theorem type?_pushType_of_lt {shape : TypeShape} {type : TypeId}
    (h : type.index < store.types.size) :
    (store.pushType shape).2.type? type = store.type? type := by
  rw [type?_pushType, if_neg (Nat.ne_of_lt h)]

theorem types_size_pushType (shape : TypeShape) :
    (store.pushType shape).2.types.size = store.types.size + 1 := by
  simp [pushType]

/-- A new type adds at most the place of its result. -/
theorem Sound.pushType {shape : TypeShape} (h : store.Sound locals)
    (hobject : ∀ object, shape = .object object → object.members = .empty)
    (hresult : ∀ function, shape = .function function →
      function.result.index < store.values.size ∧
        ∀ place, store.place? locals place ≠ some function.result) :
    (store.pushType shape).2.Sound locals := by
  have hold : ∀ place value, place ≠ .result ⟨store.types.size⟩ →
      (store.pushType shape).2.place? locals place = some value →
        store.place? locals place = some value := by
    intro place value hne hp
    cases place with
    | ofVariable of => exact hp
    | member object name =>
      obtain ⟨index⟩ := object
      by_cases hi : index = store.types.size
      · subst hi
        simp only [place?, member?, object?, type?_pushType, if_true] at hp
        cases shape with
        | object type => simp [hobject type rfl] at hp
        | function type => simp at hp
        | primitive kind => simp at hp
      · simpa only [place?, member?, object?, type?_pushType, if_neg hi] using hp
    | result function =>
      obtain ⟨index⟩ := function
      have hi : ¬index = store.types.size := by
        rintro rfl
        exact hne rfl
      simpa only [place?, result?, type?_pushType, if_neg hi] using hp
    | property owner name => exact hp
  have hnew : ∀ value, (store.pushType shape).2.place? locals (.result ⟨store.types.size⟩) =
      some value → ∃ function, shape = .function function ∧ function.result = value := by
    intro value hp
    simp only [place?, result?, type?_pushType, if_true] at hp
    cases shape with
    | object type => simp at hp
    | function type => exact ⟨type, rfl, Option.some.inj hp⟩
    | primitive kind => simp at hp
  refine ⟨?_, ?_, ?_, ?_⟩
  · intro kind
    rw [type?_pushType_of_lt (lt_of_type? (h.primitive kind))]
    exact h.primitive kind
  · intro value type ht
    rw [types_size_pushType]
    exact Nat.lt_succ_of_lt (h.held value type ht)
  · intro place value hp
    by_cases hne : place = .result ⟨store.types.size⟩
    · subst hne
      obtain ⟨function, hshape, rfl⟩ := hnew value hp
      exact (hresult function hshape).1
    · exact h.placed place value (hold place value hne hp)
  · intro first second value hfirst hsecond
    by_cases hf : first = .result ⟨store.types.size⟩
    · by_cases hs : second = .result ⟨store.types.size⟩
      · rw [hf, hs]
      · subst hf
        obtain ⟨function, hshape, rfl⟩ := hnew value hfirst
        exact absurd (hold second _ hs hsecond) ((hresult function hshape).2 second)
    · by_cases hs : second = .result ⟨store.types.size⟩
      · subst hs
        obtain ⟨function, hshape, rfl⟩ := hnew value hsecond
        exact absurd (hold first _ hf hfirst) ((hresult function hshape).2 first)
      · exact h.distinct first second value (hold first value hf hfirst)
          (hold second value hs hsecond)

theorem Sound.newObject (h : store.Sound locals) (name origin : Option String) :
    (store.newObject name origin).2.Sound locals := by
  refine h.pushType ?_ ?_
  · rintro object ⟨rfl⟩
    rfl
  · rintro function ⟨⟩

theorem Sound.newFunction (h : store.Sound locals) (name : Option String)
    (parameters : List String) (origin : Option String) :
    (store.newFunction name parameters origin).2.Sound locals := by
  refine h.newValue.pushType ?_ ?_
  · rintro object ⟨⟩
  · rintro function ⟨rfl⟩
    refine ⟨?_, ?_⟩
    · rw [values_size_newValue]
      exact Nat.lt_succ_self _
    · intro place hp
      rw [place?_newValue] at hp
      exact Nat.lt_irrefl _ (h.placed place _ hp)

/-! ### Changing what a value holds -/

/-- A change of a value that leaves its members alone. -/
theorem place?_modifyValue {value : ValueId} {change : AbstractValue → AbstractValue}
    (hmembers : ∀ held, (change held).members = held.members) (place : Place) :
    (store.modifyValue value change).place? locals place = store.place? locals place := by
  cases place with
  | ofVariable of => rfl
  | member object name => rfl
  | result function => rfl
  | property owner name =>
    simp only [place?, value?_modifyValue]
    split
    · cases store.value? owner with
      | none => rfl
      | some held => simp [hmembers]
    · rfl

theorem typesOf_modifyValue_of_ne {value other : ValueId}
    {change : AbstractValue → AbstractValue} (h : other ≠ value) :
    (store.modifyValue value change).typesOf other = store.typesOf other := by
  unfold typesOf
  rw [value?_modifyValue, if_neg h]

theorem typesOf_modifyValue_self {value : ValueId} {held : AbstractValue}
    {change : AbstractValue → AbstractValue} (h : store.value? value = some held) :
    (store.modifyValue value change).typesOf value = (change held).types := by
  unfold typesOf
  rw [value?_modifyValue, if_pos rfl, h]
  rfl

theorem lt_of_mem_typesOf {value : ValueId} {type : TypeId} (h : type ∈ store.typesOf value) :
    value.index < store.values.size := by
  refine (store.isSome_value?_iff value).1 ?_
  cases hheld : store.value? value with
  | none => simp [typesOf, hheld] at h
  | some held => rfl

theorem mem_typesOf_modifyValue {value other : ValueId} {type : TypeId}
    {change : AbstractValue → AbstractValue}
    (hchange : ∀ held, type ∈ held.types → type ∈ (change held).types)
    (h : type ∈ store.typesOf other) : type ∈ (store.modifyValue value change).typesOf other := by
  by_cases heq : other = value
  · subst heq
    obtain ⟨held, hheld⟩ := store.exists_value? (store.lt_of_mem_typesOf h)
    rw [typesOf_eq _ hheld] at h
    rw [typesOf_modifyValue_self hheld]
    exact hchange held h
  · rw [typesOf_modifyValue_of_ne heq]
    exact h

theorem Sound.modifyValue {value : ValueId} {change : AbstractValue → AbstractValue}
    (h : store.Sound locals) (hmembers : ∀ held, (change held).members = held.members)
    (htypes : ∀ held type, type ∈ (change held).types →
      type ∈ held.types ∨ type.index < store.types.size) :
    (store.modifyValue value change).Sound locals := by
  refine h.extend (.result ⟨0⟩) h.primitive ?_ ?_ ?_
  · intro other type ht
    by_cases ho : other = value
    · subst ho
      cases hv : store.value? other with
      | none =>
        simp [typesOf, value?_modifyValue, hv] at ht
      | some held =>
        rw [typesOf_modifyValue_self hv] at ht
        rcases htypes held type ht with hold | hlt
        · exact h.held other type (by rw [typesOf_eq store hv]; exact hold)
        · exact hlt
    · rw [typesOf_modifyValue_of_ne ho] at ht
      exact h.held other type ht
  · exact Nat.le_of_eq (values_size_modifyValue ..).symm
  · intro place other hp
    rw [place?_modifyValue hmembers] at hp
    exact Or.inl hp

theorem Sound.withType {value : ValueId} {type : TypeId} (h : store.Sound locals)
    (ht : type.index < store.types.size) :
    (store.modifyValue value (Store.withType type)).Sound locals := by
  refine h.modifyValue (fun _ => rfl) ?_
  intro held other ho
  rcases mem_insertNew.1 ho with hold | rfl
  · exact Or.inl hold
  · exact Or.inr ht

theorem Sound.withoutType {value : ValueId} {type : TypeId} (h : store.Sound locals) :
    (store.modifyValue value (Store.withoutType type)).Sound locals := by
  refine h.modifyValue (fun _ => rfl) ?_
  intro held other ho
  exact Or.inl (List.mem_filter.1 ho).1

/-- A type that changes but keeps its members keeps all places. -/
theorem place?_setDoc (type : TypeId) (doc : String) (place : Place) :
    (store.setDoc type doc).place? locals place = store.place? locals place := by
  cases place with
  | ofVariable of => rfl
  | member other name =>
    simp only [place?, member?, object?, type?_setDoc]
    by_cases h : other = type
    · rw [if_pos h]
      cases store.type? other with
      | none => rfl
      | some shape => cases shape <;> rfl
    · rw [if_neg h]
  | result function =>
    simp only [place?, result?, type?_setDoc]
    by_cases h : function = type
    · rw [if_pos h]
      cases store.type? function with
      | none => rfl
      | some shape => cases shape <;> rfl
    · rw [if_neg h]
  | property owner name => rfl

theorem types_size_setDoc (type : TypeId) (doc : String) :
    (store.setDoc type doc).types.size = store.types.size := by
  simp [Store.setDoc]

theorem Sound.setDoc (type : TypeId) (doc : String) (h : store.Sound locals) :
    (store.setDoc type doc).Sound locals := by
  refine h.extend (.result ⟨0⟩) ?_ ?_ (Nat.le_refl _) ?_
  · intro kind
    rw [type?_setDoc]
    split
    · rw [h.primitive kind]
      rfl
    · exact h.primitive kind
  · intro value other hother
    rw [types_size_setDoc]
    exact h.held value other hother
  · intro place value hp
    rw [place?_setDoc] at hp
    exact Or.inl hp

/-! ### New members -/

def addMember (store : Store) (type : TypeId) (object : ObjectType) (name : String) : Store :=
  store.newValue.2.setType type
    (.object { object with members := object.members.put name ⟨store.values.size⟩ })

def addProperty (store : Store) (value : ValueId) (name : String) : Store :=
  store.newValue.2.modifyValue value (withMember name ⟨store.values.size⟩)

theorem type?_addMember {type : TypeId} {object : ObjectType} (name : String)
    (ho : store.object? type = some object) (other : TypeId) :
    (store.addMember type object name).type? other =
      if other = type then
        some (.object { object with members := object.members.put name ⟨store.values.size⟩ })
      else store.type? other := by
  unfold addMember
  rw [type?_setType]
  · rfl
  · exact lt_of_type? (store.type?_of_object? ho)

@[simp] theorem value?_addMember (type : TypeId) (object : ObjectType) (name : String)
    (value : ValueId) :
    (store.addMember type object name).value? value = store.newValue.2.value? value := rfl

theorem values_size_addMember (type : TypeId) (object : ObjectType) (name : String) :
    (store.addMember type object name).values.size = store.values.size + 1 := by
  unfold addMember
  rw [values_setType, values_size_newValue]

theorem types_size_addMember (type : TypeId) (object : ObjectType) (name : String) :
    (store.addMember type object name).types.size = store.types.size := by
  unfold addMember
  rw [types_size_setType]
  rfl

theorem typesOf_addMember (type : TypeId) (object : ObjectType) (name : String)
    (value : ValueId) :
    (store.addMember type object name).typesOf value = store.typesOf value := by
  change store.newValue.2.typesOf value = store.typesOf value
  exact typesOf_newValue value

/-- The new member is the only new place. -/
theorem place?_addMember {type : TypeId} {object : ObjectType} {name : String}
    (ho : store.object? type = some object) (place : Place) :
    (store.addMember type object name).place? locals place =
      if place = .member type name then some ⟨store.values.size⟩
      else store.place? locals place := by
  cases place with
  | ofVariable of => rfl
  | member other key =>
    simp only [place?, member?, object?, type?_addMember name ho]
    by_cases hother : other = type
    · subst hother
      have ht := store.type?_of_object? ho
      simp only [if_true, Option.bind_some, Keyed.get?_put, ht, Place.member.injEq, true_and]
    · rw [if_neg hother, if_neg]
      rintro ⟨⟩
      exact hother rfl
  | result function =>
    simp only [place?, result?, type?_addMember name ho, reduceCtorEq, if_false]
    by_cases hf : function = type
    · subst hf
      rw [if_pos rfl, store.type?_of_object? ho]
    · rw [if_neg hf]
  | property owner key =>
    rw [if_neg (by rintro ⟨⟩)]
    change store.newValue.2.place? locals (.property owner key) = _
    exact place?_newValue (.property owner key)

theorem Sound.addMember {type : TypeId} {object : ObjectType} (name : String)
    (h : store.Sound locals) (ho : store.object? type = some object) :
    (store.addMember type object name).Sound locals := by
  refine h.extend (.member type name) ?_ ?_ ?_ ?_
  · intro kind
    rw [type?_addMember name ho, if_neg]
    · exact h.primitive kind
    · rintro rfl
      rw [object?, h.primitive kind] at ho
      cases ho
  · intro value other hother
    rw [typesOf_addMember] at hother
    rw [types_size_addMember]
    exact h.held value other hother
  · rw [values_size_addMember]
    exact Nat.le_succ _
  · intro place value hp
    rw [place?_addMember ho] at hp
    split at hp
    · rename_i heq
      cases Option.some.inj hp
      refine Or.inr ⟨heq, Nat.le_refl _, ?_⟩
      rw [values_size_addMember]
      exact Nat.lt_succ_self _
    · exact Or.inl hp

theorem value?_addProperty {value : ValueId} (name : String)
    (hlt : value.index < store.values.size) (other : ValueId) :
    (store.addProperty value name).value? other =
      if other = value then (store.value? value).map (withMember name ⟨store.values.size⟩)
      else store.newValue.2.value? other := by
  unfold addProperty
  rw [value?_modifyValue]
  by_cases h : other = value
  · subst h
    rw [if_pos rfl, if_pos rfl, value?_newValue, if_neg (Nat.ne_of_lt hlt)]
  · rw [if_neg h, if_neg h]

theorem values_size_addProperty (value : ValueId) (name : String) :
    (store.addProperty value name).values.size = store.values.size + 1 := by
  unfold addProperty
  rw [values_size_modifyValue, values_size_newValue]

theorem typesOf_addProperty {value : ValueId} (name : String)
    (hlt : value.index < store.values.size) (other : ValueId) :
    (store.addProperty value name).typesOf other = store.typesOf other := by
  by_cases h : other = value
  · subst h
    unfold typesOf
    rw [value?_addProperty name hlt, if_pos rfl]
    cases store.value? other <;> rfl
  · refine Eq.trans ?_ (typesOf_newValue other)
    unfold typesOf
    rw [value?_addProperty name hlt, if_neg h]

/-- The new member is the only new place. -/
theorem place?_addProperty {value : ValueId} {name : String}
    (hlt : value.index < store.values.size) (place : Place) :
    (store.addProperty value name).place? locals place =
      if place = .property value name then some ⟨store.values.size⟩
      else store.place? locals place := by
  cases place with
  | ofVariable of => rfl
  | member object key => rfl
  | result function => rfl
  | property owner key =>
    simp only [place?, value?_addProperty name hlt, Place.property.injEq]
    by_cases ho : owner = value
    · subst ho
      obtain ⟨held, hheld⟩ := store.exists_value? hlt
      simp [hheld, withMember, Keyed.get?_put]
    · rw [if_neg ho, if_neg (fun h => ho h.1)]
      change store.newValue.2.place? locals (.property owner key) = _
      exact place?_newValue (.property owner key)

theorem Sound.addProperty {value : ValueId} (name : String) (h : store.Sound locals)
    (hlt : value.index < store.values.size) :
    (store.addProperty value name).Sound locals := by
  refine h.extend (.property value name) h.primitive ?_ ?_ ?_
  · intro other type ht
    rw [typesOf_addProperty name hlt] at ht
    exact h.held other type ht
  · rw [values_size_addProperty]
    exact Nat.le_succ _
  · intro place other hp
    rw [place?_addProperty hlt] at hp
    split at hp
    · rename_i heq
      cases Option.some.inj hp
      refine Or.inr ⟨heq, Nat.le_refl _, ?_⟩
      rw [values_size_addProperty]
      exact Nat.lt_succ_self _
    · exact Or.inl hp

/-! ### The primitives stay

This does not need the rest of the store to be sound. -/

theorem HasPrimitives.initial : Store.initial.HasPrimitives := by
  intro kind
  cases kind <;> rfl

/-- A store in which no primitive was changed still has them all. -/
theorem HasPrimitives.keep {next : Store} (h : store.HasPrimitives)
    (hkeep : ∀ type kind, store.type? type = some (.primitive kind) →
      next.type? type = some (.primitive kind)) : next.HasPrimitives :=
  fun kind => hkeep _ kind (h kind)

theorem HasPrimitives.pushType (h : store.HasPrimitives) (shape : TypeShape) :
    (store.pushType shape).2.HasPrimitives := by
  refine h.keep fun type kind htype => ?_
  rw [type?_pushType_of_lt (lt_of_type? htype)]
  exact htype

theorem HasPrimitives.setDoc (h : store.HasPrimitives) (type : TypeId) (doc : String) :
    (store.setDoc type doc).HasPrimitives := by
  refine h.keep fun other kind hother => ?_
  rw [type?_setDoc]
  split
  · rw [hother]
    rfl
  · exact hother

theorem HasPrimitives.ensureMember (h : store.HasPrimitives) (object : TypeId) (name : String) :
    (store.ensureMember object name).2.HasPrimitives := by
  cases hobject : store.object? object with
  | none =>
    unfold Store.ensureMember
    rw [hobject]
    exact h
  | some type =>
    cases hmember : type.members.get? name with
    | some member =>
      rw [ensureMember_present _ hobject hmember]
      exact h
    | none =>
      rw [ensureMember_absent _ hobject hmember]
      refine h.keep fun other kind hother => ?_
      have hne : other ≠ object := by
        rintro rfl
        rw [object?, hother] at hobject
        cases hobject
      have hadded := type?_addMember name hobject other
      rw [if_neg hne] at hadded
      exact hadded.trans hother

theorem HasPrimitives.addType (h : store.HasPrimitives) (value : ValueId) (type : TypeId) :
    (store.addType value type).2.HasPrimitives := by
  unfold Store.addType
  split
  · exact h
  · split
    · exact h
    · exact h

theorem HasPrimitives.removeType (h : store.HasPrimitives) (value : ValueId) (type : TypeId) :
    (store.removeType value type).2.HasPrimitives := by
  unfold Store.removeType
  split
  · exact h
  · exact h

theorem HasPrimitives.valueMember (h : store.HasPrimitives) (value : ValueId) (name : String) :
    (store.valueMember value name).2.HasPrimitives := by
  unfold Store.valueMember
  split
  · exact h
  · split
    · exact h
    · exact h

theorem HasPrimitives.setEnumeration (h : store.HasPrimitives) (value : ValueId)
    (names : List String) : (store.setEnumeration value names).2.HasPrimitives := by
  unfold Store.setEnumeration
  split
  · exact h
  · exact h

end Store

end Capabilities.Types
