import Capabilities.Proofs.Types.Places

/-!
# Writing to some places only

Binding the imports of a file writes to places that belong to the file: its variables, the members
of these, and the members of the object type that stands for its imports. `Touches` says that
values at certain places only were written to, and which is the one object type that got members.
Since no two places share a value, what belongs to one file cannot be changed by binding another.
-/

namespace Capabilities.Types.Store

def enumeration? (store : Store) (value : ValueId) : Option (List String) :=
  (store.value? value).bind AbstractValue.enumeration

theorem enumeration?_modifyValue_self {store : Store} {value : ValueId} {held : AbstractValue}
    {change : AbstractValue → AbstractValue} (h : store.value? value = some held) :
    (store.modifyValue value change).enumeration? value = (change held).enumeration := by
  unfold enumeration?
  rw [value?_modifyValue, if_pos rfl, h]
  rfl

theorem enumeration?_modifyValue_of_ne {store : Store} {value other : ValueId}
    {change : AbstractValue → AbstractValue} (h : other ≠ value) :
    (store.modifyValue value change).enumeration? other = store.enumeration? other := by
  unfold enumeration?
  rw [value?_modifyValue, if_neg h]

/-- Only values at the places of `writes` were written to, places were added among these only, and
    no type changed but `object`. -/
structure Touches (locals : Variables) (writes : Place → Prop) (object : TypeId)
    (before after : Store) : Prop where
  types_size : after.types.size = before.types.size
  values_le : before.values.size ≤ after.values.size
  other_type : ∀ type, type ≠ object → after.type? type = before.type? type
  object_stays : (before.object? object).isSome = true → (after.object? object).isSome = true
  other_types : ∀ value, value.index < before.values.size →
    (∀ place, writes place → before.place? locals place ≠ some value) →
    after.typesOf value = before.typesOf value ∧
      after.enumeration? value = before.enumeration? value
  other_value : ∀ value, value.index < before.values.size →
    (∀ place, writes place → before.place? locals place ≠ some value) →
    (∀ name, ¬writes (.property value name)) → after.value? value = before.value? value
  kept : ∀ place value, before.place? locals place = some value →
    after.place? locals place = some value
  new : ∀ place value, after.place? locals place = some value →
    before.place? locals place = some value ∨
      writes place ∧ before.values.size ≤ value.index

variable {locals : Variables} {writes : Place → Prop} {object : TypeId}
  {store before after : Store}

theorem Touches.refl (locals : Variables) (writes : Place → Prop) (object : TypeId)
    (store : Store) : Touches locals writes object store store :=
  ⟨rfl, Nat.le_refl _, fun _ _ => rfl, id, fun _ _ _ => ⟨rfl, rfl⟩, fun _ _ _ _ => rfl,
    fun _ _ => id, fun _ _ => Or.inl⟩

theorem Touches.mono {more : Place → Prop} (h : Touches locals writes object before after)
    (hmore : ∀ place, writes place → more place) : Touches locals more object before after := by
  refine ⟨h.types_size, h.values_le, h.other_type, h.object_stays, ?_, ?_, h.kept, ?_⟩
  · intro value hlt hout
    exact h.other_types value hlt fun place hplace => hout place (hmore place hplace)
  · intro value hlt hout hproperty
    exact h.other_value value hlt (fun place hplace => hout place (hmore place hplace))
      fun name hname => hproperty name (hmore _ hname)
  · intro place value hplace
    rcases h.new place value hplace with hold | ⟨hwrites, hle⟩
    · exact Or.inl hold
    · exact Or.inr ⟨hmore place hwrites, hle⟩

theorem Touches.trans {middle : Store} (h : Touches locals writes object before middle)
    (h' : Touches locals writes object middle after) :
    Touches locals writes object before after := by
  have hout : ∀ value : ValueId, value.index < before.values.size →
      (∀ place, writes place → before.place? locals place ≠ some value) →
      ∀ place, writes place → middle.place? locals place ≠ some value := by
    intro value hlt hbefore place hwrites hplace
    rcases h.new place value hplace with hold | ⟨_, hle⟩
    · exact hbefore place hwrites hold
    · exact Nat.not_lt.2 hle hlt
  refine ⟨h'.types_size.trans h.types_size, Nat.le_trans h.values_le h'.values_le, ?_, ?_, ?_,
    ?_, ?_, ?_⟩
  · intro type hne
    rw [h'.other_type type hne, h.other_type type hne]
  · intro hobject
    exact h'.object_stays (h.object_stays hobject)
  · intro value hlt hbefore
    obtain ⟨htypes, henumeration⟩ := h.other_types value hlt hbefore
    obtain ⟨htypes', henumeration'⟩ := h'.other_types value (Nat.lt_of_lt_of_le hlt h.values_le)
      (hout value hlt hbefore)
    exact ⟨htypes'.trans htypes, henumeration'.trans henumeration⟩
  · intro value hlt hbefore hproperty
    rw [h'.other_value value (Nat.lt_of_lt_of_le hlt h.values_le) (hout value hlt hbefore)
      hproperty, h.other_value value hlt hbefore hproperty]
  · intro place value hplace
    exact h'.kept place value (h.kept place value hplace)
  · intro place value hplace
    rcases h'.new place value hplace with hmiddle | ⟨hwrites, hle⟩
    · exact h.new place value hmiddle
    · exact Or.inr ⟨hwrites, Nat.le_trans h.values_le hle⟩

/-- What a place that is not written to holds stays as it was. -/
theorem Touches.types_outside {place : Place} {value : ValueId}
    (h : Touches locals writes object before after) (hsound : before.Sound locals)
    (hplace : before.place? locals place = some value) (hout : ¬writes place) :
    after.typesOf value = before.typesOf value ∧
      after.enumeration? value = before.enumeration? value := by
  refine h.other_types value (hsound.placed place value hplace) ?_
  intro other hwrites hother
  rw [hsound.distinct place other value hplace hother] at hout
  exact hout hwrites

theorem Touches.place?_outside {place : Place} (h : Touches locals writes object before after)
    (hout : ¬writes place) :
    after.place? locals place = before.place? locals place := by
  cases hbefore : before.place? locals place with
  | some value => exact h.kept place value hbefore
  | none =>
    cases hafter : after.place? locals place with
    | none => rfl
    | some value =>
      rcases h.new place value hafter with hold | ⟨hwrites, _⟩
      · rw [hbefore] at hold
        cases hold
      · exact absurd hwrites hout

/-- A value of the store that is at none of some places. -/
structure Outside (locals : Variables) (places : Place → Prop) (store : Store) (value : ValueId) :
    Prop where
  lt : value.index < store.values.size
  out : ∀ place, places place → store.place? locals place ≠ some value

theorem Outside.mono {places fewer : Place → Prop} {value : ValueId}
    (h : Outside locals places store value) (hfewer : ∀ place, fewer place → places place) :
    Outside locals fewer store value :=
  ⟨h.lt, fun place hplace => h.out place (hfewer place hplace)⟩

/-- A value at one place is at no other. -/
theorem Sound.outside {places : Place → Prop} {place : Place} {value : ValueId}
    (h : store.Sound locals) (hplace : store.place? locals place = some value)
    (hout : ¬places place) : Outside locals places store value := by
  refine ⟨h.placed place value hplace, ?_⟩
  intro other hother hfound
  rw [h.distinct place other value hplace hfound] at hout
  exact hout hother

/-- Places that are added get new values. -/
theorem Touches.outside {places : Place → Prop} {value : ValueId}
    (h : Touches locals writes object before after) (hout : Outside locals places before value) :
    Outside locals places after value := by
  refine ⟨Nat.lt_of_lt_of_le hout.lt h.values_le, ?_⟩
  intro place hplace hfound
  rcases h.new place value hfound with hold | ⟨_, hle⟩
  · exact hout.out place hplace hold
  · exact Nat.not_lt.2 hle hout.lt

theorem Touches.isSome_object? {type : TypeId}
    (h : Touches locals writes object before after)
    (htype : (before.object? type).isSome = true) : (after.object? type).isSome = true := by
  by_cases heq : type = object
  · subst heq
    exact h.object_stays htype
  · unfold Store.object? at htype ⊢
    rw [h.other_type type heq]
    exact htype

/-! ### Writing -/

theorem Touches.modifyValue {place : Place} {value : ValueId}
    {change : AbstractValue → AbstractValue}
    (hmembers : ∀ held, (change held).members = held.members) (hwrites : writes place)
    (hplace : store.place? locals place = some value) :
    Touches locals writes object store (store.modifyValue value change) := by
  have hother : ∀ other : ValueId,
      (∀ place, writes place → store.place? locals place ≠ some other) →
      (store.modifyValue value change).value? other = store.value? other := by
    intro other hout
    rw [value?_modifyValue, if_neg]
    rintro rfl
    exact hout place hwrites hplace
  refine ⟨rfl, ?_, fun _ _ => rfl, id, ?_, fun other _ hout _ => hother other hout, ?_, ?_⟩
  · exact Nat.le_of_eq (values_size_modifyValue ..).symm
  · intro other _ hout
    unfold typesOf enumeration?
    rw [hother other hout]
    exact ⟨rfl, rfl⟩
  · intro other found hfound
    rw [place?_modifyValue hmembers]
    exact hfound
  · intro other found hfound
    rw [place?_modifyValue hmembers] at hfound
    exact Or.inl hfound

theorem Touches.addProperty {value : ValueId} {name : String}
    (hwrites : writes (.property value name)) (hlt : value.index < store.values.size)
    (hnone : store.place? locals (.property value name) = none) :
    Touches locals writes object store (store.addProperty value name) := by
  refine ⟨rfl, ?_, fun _ _ => rfl, id, ?_, ?_, ?_, ?_⟩
  · rw [values_size_addProperty]
    exact Nat.le_succ _
  · intro other hother _
    refine ⟨typesOf_addProperty name hlt other, ?_⟩
    unfold enumeration?
    rw [value?_addProperty name hlt]
    split
    · rename_i heq
      rw [heq]
      cases store.value? value <;> rfl
    · rw [value?_newValue, if_neg (Nat.ne_of_lt hother)]
  · intro other hother _ hproperty
    rw [value?_addProperty name hlt, if_neg, value?_newValue, if_neg (Nat.ne_of_lt hother)]
    rintro rfl
    exact hproperty name hwrites
  · intro place found hplace
    rw [place?_addProperty hlt, if_neg]
    · exact hplace
    · rintro rfl
      rw [hnone] at hplace
      cases hplace
  · intro place found hplace
    rw [place?_addProperty hlt] at hplace
    split at hplace
    · rename_i heq
      subst heq
      cases hplace
      exact Or.inr ⟨hwrites, Nat.le_refl _⟩
    · exact Or.inl hplace

theorem Touches.addMember {type : ObjectType} {name : String}
    (hwrites : writes (.member object name)) (ho : store.object? object = some type)
    (hnone : store.place? locals (.member object name) = none) :
    Touches locals writes object store (store.addMember object type name) := by
  have hvalue : ∀ other : ValueId, other.index < store.values.size →
      (store.addMember object type name).value? other = store.value? other := by
    intro other hother
    rw [value?_addMember, value?_newValue, if_neg (Nat.ne_of_lt hother)]
  refine ⟨types_size_addMember _ _ _, ?_, ?_, ?_, ?_, fun other hother _ _ => hvalue other hother,
    ?_, ?_⟩
  · rw [values_size_addMember]
    exact Nat.le_succ _
  · intro other hne
    rw [type?_addMember name ho, if_neg hne]
  · intro _
    have hnew := type?_addMember name ho object
    rw [if_pos rfl] at hnew
    rw [object?_eq_some _ hnew]
    rfl
  · intro other hother _
    unfold typesOf enumeration?
    rw [hvalue other hother]
    exact ⟨rfl, rfl⟩
  · intro place found hplace
    rw [place?_addMember ho, if_neg]
    · exact hplace
    · rintro rfl
      rw [hnone] at hplace
      cases hplace
  · intro place found hplace
    rw [place?_addMember ho] at hplace
    split at hplace
    · rename_i heq
      subst heq
      cases hplace
      exact Or.inr ⟨hwrites, Nat.le_refl _⟩
    · exact Or.inl hplace

/-! ### The places of a file -/

/-- The places that belong to a file whose imports are `object`. -/
def Territory (locals : Variables) (file : String) (object : TypeId) : Place → Prop
  | .ofVariable of => of.file = file
  | .member owner _ => owner = object
  | .result _ => False
  | .property owner _ => ∃ of, of.file = file ∧ locals of = some owner

/-! ### Types that stay -/

/-- A type is what it was, and its members and its result hold what they held. -/
structure TypeStays (type : TypeId) (before after : Store) : Prop where
  shape : after.type? type = before.type? type
  member : ∀ name value, before.member? type name = some value →
    after.typesOf value = before.typesOf value
  result : ∀ value, before.result? type = some value →
    after.typesOf value = before.typesOf value

theorem TypeStays.refl (type : TypeId) (store : Store) : TypeStays type store store :=
  ⟨rfl, fun _ _ _ => rfl, fun _ _ => rfl⟩

theorem TypeStays.member? {type : TypeId} (h : TypeStays type before after) (name : String) :
    after.member? type name = before.member? type name := by
  simp only [Store.member?, Store.object?, h.shape]

theorem TypeStays.result? {type : TypeId} (h : TypeStays type before after) :
    after.result? type = before.result? type := by
  simp only [Store.result?, h.shape]

theorem TypeStays.trans {type : TypeId} {middle : Store} (h : TypeStays type before middle)
    (h' : TypeStays type middle after) : TypeStays type before after := by
  refine ⟨h'.shape.trans h.shape, ?_, ?_⟩
  · intro name value hvalue
    rw [h'.member name value ((h.member? name).trans hvalue), h.member name value hvalue]
  · intro value hvalue
    rw [h'.result value (h.result?.trans hvalue), h.result value hvalue]

theorem Touches.typeStays {type : TypeId} (h : Touches locals writes object before after)
    (hsound : before.Sound locals) (hobject : type ≠ object)
    (hmember : ∀ name, ¬writes (.member type name)) (hresult : ¬writes (.result type)) :
    TypeStays type before after := by
  refine ⟨h.other_type type hobject, ?_, ?_⟩
  · intro name value hvalue
    have hplace : before.place? locals (.member type name) = some value := hvalue
    exact (h.types_outside hsound hplace (hmember name)).1
  · intro value hvalue
    have hplace : before.place? locals (.result type) = some value := hvalue
    exact (h.types_outside hsound hplace hresult).1

/-! ### What a place shows -/

/-- A place that is there exactly if there is a type to show, and then holds just that type. -/
def Shows (store : Store) (locals : Variables) (place : Place) : Option TypeId → Prop
  | none => store.place? locals place = none
  | some type => ∃ value, store.place? locals place = some value ∧
      store.typesOf value = [type]

theorem Touches.shows {place : Place} {type : Option TypeId}
    (h : Touches locals writes object before after) (hsound : before.Sound locals)
    (hout : ¬writes place)
    (hshows : before.Shows locals place type) : after.Shows locals place type := by
  cases type with
  | none => exact (h.place?_outside hout).trans hshows
  | some type =>
    obtain ⟨value, hplace, htypes⟩ := hshows
    refine ⟨value, h.kept place value hplace, ?_⟩
    rw [← htypes]
    exact (h.types_outside hsound hplace hout).1

theorem typesOf_fresh (store : Store) : store.typesOf ⟨store.values.size⟩ = [] := by
  have hnone : store.value? ⟨store.values.size⟩ = none := by
    simp [value?]
  unfold typesOf
  rw [hnone]
  rfl

/-- The member of a value, added if it is not there yet, holds what was to be seen there. -/
theorem valueMember_shows {value : ValueId} {name : String} {type : Option TypeId}
    (object : TypeId) (hsound : store.Sound locals) (hlt : value.index < store.values.size)
    (hshows : store.Shows locals (.property value name) type) :
    ∃ member after, store.valueMember value name = (.ok member, after) ∧
      after.Sound locals ∧
      Touches locals (fun place => place = .property value name) object store after ∧
      after.place? locals (.property value name) = some member ∧
      after.typesOf member = type.toList ∧
      ∀ other, after.typesOf other = store.typesOf other := by
  obtain ⟨held, hheld⟩ := store.exists_value? hlt
  have hplace : store.place? locals (.property value name) = held.members.get? name := by
    simp only [place?, hheld]
    rfl
  cases type with
  | none =>
    have hnone : store.place? locals (.property value name) = none := hshows
    refine ⟨⟨store.values.size⟩, store.addProperty value name,
      store.valueMember_absent hheld (hplace.symm.trans hnone), hsound.addProperty name hlt,
      .addProperty rfl hlt hnone, ?_, ?_, typesOf_addProperty name hlt⟩
    · rw [place?_addProperty hlt, if_pos rfl]
    · rw [typesOf_addProperty name hlt, typesOf_fresh]
      rfl
  | some type =>
    obtain ⟨member, hmember, htypes⟩ := hshows
    exact ⟨member, store, store.valueMember_present hheld (hplace.symm.trans hmember), hsound,
      .refl _ _ _ _, hmember, htypes, fun _ => rfl⟩

/-- The member of an object type, added if it is not there yet, holds what was to be seen there. -/
theorem ensureMember_shows {object : TypeId} {name : String} {type : Option TypeId}
    (hsound : store.Sound locals) (hobject : (store.object? object).isSome = true)
    (hshows : store.Shows locals (.member object name) type) :
    ∃ member after, store.ensureMember object name = (.ok member, after) ∧
      after.Sound locals ∧
      Touches locals (fun place => place = .member object name) object store after ∧
      after.place? locals (.member object name) = some member ∧
      after.typesOf member = type.toList ∧
      ∀ other, after.typesOf other = store.typesOf other := by
  obtain ⟨found, hfound⟩ := Option.isSome_iff_exists.1 hobject
  have hplace : store.place? locals (.member object name) = found.members.get? name := by
    simp only [place?, member?, hfound]
    rfl
  cases type with
  | none =>
    have hnone : store.place? locals (.member object name) = none := hshows
    refine ⟨⟨store.values.size⟩, store.addMember object found name,
      store.ensureMember_absent hfound (hplace.symm.trans hnone), hsound.addMember name hfound,
      .addMember rfl hfound hnone, ?_, ?_, typesOf_addMember object found name⟩
    · rw [place?_addMember hfound, if_pos rfl]
    · rw [typesOf_addMember, typesOf_fresh]
      rfl
  | some type =>
    obtain ⟨member, hmember, htypes⟩ := hshows
    exact ⟨member, store, store.ensureMember_present hfound (hplace.symm.trans hmember), hsound,
      .refl _ _ _ _, hmember, htypes, fun _ => rfl⟩

def exchange (old : Option TypeId) (new : TypeId) (held : AbstractValue) : AbstractValue :=
  match old with
  | some old => withType new (withoutType old held)
  | none => withType new held

@[simp] theorem members_exchange (old : Option TypeId) (new : TypeId) (held : AbstractValue) :
    (exchange old new held).members = held.members := by
  cases old <;> rfl

theorem mem_types_exchange {old : Option TypeId} {new type : TypeId} {held : AbstractValue}
    (h : type ∈ held.types) (hne : old ≠ some type) : type ∈ (exchange old new held).types := by
  cases old with
  | none => exact mem_insertNew.2 (Or.inl h)
  | some old =>
    have hold : type ≠ old := fun heq => hne (by rw [heq])
    exact mem_insertNew.2 (Or.inl (List.mem_filter.2 ⟨h, by simpa using hold⟩))

theorem new_mem_types_exchange (old : Option TypeId) (new : TypeId) (held : AbstractValue) :
    new ∈ (exchange old new held).types := by
  cases old with
  | none => exact mem_insertNew.2 (Or.inr rfl)
  | some old => exact mem_insertNew.2 (Or.inr rfl)

/-- What held nothing, or just the old type or the new one, holds just the new one afterwards. -/
theorem types_exchange {old : Option TypeId} {new : TypeId} {held : AbstractValue}
    (hne : old ≠ some new)
    (h : held.types = [] ∨ (∃ type, old = some type ∧ held.types = [type]) ∨ held.types = [new]) :
    (exchange old new held).types = [new] := by
  have hadd : ∀ types : List TypeId, types = [] ∨ types = [new] → insertNew types new = [new] := by
    rintro types (rfl | rfl)
    · rfl
    · exact insertNew_of_mem List.mem_cons_self
  cases old with
  | none =>
    refine hadd held.types ?_
    rcases h with h | ⟨type, hnone, _⟩ | h
    · exact Or.inl h
    · cases hnone
    · exact Or.inr h
  | some old =>
    refine hadd (held.types.filter (· != old)) ?_
    rcases h with h | ⟨type, hold, h⟩ | h
    · rw [h]
      exact Or.inl rfl
    · cases hold
      rw [h]
      left
      simp
    · rw [h]
      right
      have hnew : new ≠ old := fun heq => hne (by rw [heq])
      simp [hnew]

theorem Sound.exchange {value : ValueId} {old : Option TypeId} {new : TypeId}
    (h : store.Sound locals) (hnew : new.index < store.types.size) :
    (store.modifyValue value (exchange old new)).Sound locals := by
  refine h.modifyValue (fun held => members_exchange old new held) ?_
  intro held type ht
  have hadd : ∀ types : List TypeId, type ∈ insertNew types new →
      type ∈ types ∨ type.index < store.types.size := by
    intro types hmem
    rcases mem_insertNew.1 hmem with hmem | rfl
    · exact Or.inl hmem
    · exact Or.inr hnew
  cases old with
  | none => exact hadd held.types ht
  | some old =>
    rcases hadd _ ht with hmem | hlt
    · exact Or.inl (List.mem_filter.1 hmem).1
    · exact Or.inr hlt

end Capabilities.Types.Store
