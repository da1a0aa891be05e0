import Capabilities.Proofs.Types.Arena

/-!
# A store that only grows

Inference takes nothing out of a store. So types keep the members they have, values keep the types
they hold in their order, and a function made later gets a new value for its result: the store
*advances*.

For the operations that may be refused it is said here what they have done when they are not:
which values hold more afterwards, and what that is.
-/

namespace Capabilities.Types

/-- What is held stays in front if nothing is taken out. -/
theorem AbstractValue.Renews.prefix_types {held new : AbstractValue}
    (h : held.Renews (fun _ => False) new) : held.types <+: new.types := by
  cases h with
  | same => exact List.prefix_refl _
  | hold type =>
    change held.types <+: Store.insertNew held.types type
    unfold Store.insertNew
    split
    · exact List.prefix_refl _
    · exact List.prefix_append _ _
  | release hreleased => exact hreleased.elim
  | member member hname => exact List.prefix_refl _
  | enumerate names => exact List.prefix_refl _

namespace Store

/-- Nothing was taken out of a store, and functions made since then have new values for results. -/
structure Advances (before after : Store) : Prop where
  «extends» : before.Extends after
  types : ∀ value, before.typesOf value <+: after.typesOf value
  results : ∀ type result, after.result? type = some result →
    before.result? type = some result ∨ before.values.size ≤ result.index

variable {store before middle after next : Store} {value other target source result : ValueId}
  {type object : TypeId} {name : String}

theorem Extends.values_le (h : before.Extends after) : before.values.size ≤ after.values.size := by
  refine Nat.le_of_not_lt fun hlt => ?_
  let beyond : ValueId := ⟨after.values.size⟩
  have hbeyond : beyond.index < before.values.size := hlt
  obtain ⟨held, hheld⟩ := before.exists_value? hbeyond
  obtain ⟨new, hnew, -⟩ := h.value beyond held hheld
  exact Nat.lt_irrefl _ ((after.isSome_value?_iff beyond).1 (by rw [hnew]; rfl))

namespace Advances

theorem refl (store : Store) : store.Advances store :=
  ⟨.refl store, fun _ => List.prefix_refl _, fun _ _ h => Or.inl h⟩

theorem trans (h : before.Advances middle) (h' : middle.Advances after) :
    before.Advances after := by
  refine ⟨h.extends.trans h'.extends, fun value => (h.types value).trans (h'.types value), ?_⟩
  intro type result hresult
  rcases h'.results type result hresult with hold | hnew
  · exact h.results type result hold
  · exact Or.inr (Nat.le_trans h.extends.values_le hnew)

theorem result? (h : before.Advances after) (hresult : before.result? type = some result) :
    after.result? type = some result := by
  obtain ⟨function, htype, rfl⟩ := before.type?_of_result? hresult
  obtain ⟨new, hnew, hextends⟩ := h.extends.type type _ htype
  cases hextends with
  | function =>
    unfold Store.result?
    rw [hnew]

theorem firstType? (h : before.Advances after) (htype : before.firstType? value = some type) :
    after.firstType? value = some type := by
  obtain ⟨more, hmore⟩ := h.types value
  unfold Store.firstType? at htype ⊢
  rw [← hmore]
  cases hheld : before.typesOf value with
  | nil =>
    rw [hheld] at htype
    cases htype
  | cons first rest =>
    rw [hheld] at htype
    exact htype

theorem mem_typesOf (h : before.Advances after) (htype : type ∈ before.typesOf value) :
    type ∈ after.typesOf value :=
  (h.types value).subset htype

/-- The members an object type has stay in front. -/
theorem keys (h : before.Advances after) {found : ObjectType}
    (hobject : before.object? type = some found) :
    ∃ new, after.object? type = some new ∧ found.members.keys <+: new.members.keys := by
  obtain ⟨shape, hshape, hextends⟩ := h.extends.type type _ (before.type?_of_object? hobject)
  cases hextends with
  | object hmembers => exact ⟨_, after.object?_eq_some hshape, hmembers.map Prod.fst⟩

end Advances

/-! ### Changes -/

theorem Change.results (h : Change (fun _ _ => False) store next)
    (hresult : next.result? type = some result) :
    store.result? type = some result ∨ store.values.size ≤ result.index := by
  have hpushed : ∀ {before : Store} {shape : TypeShape},
      (before.pushType shape).2.result? type = some result →
        before.result? type = some result ∨
          ∃ function, shape = .function function ∧ function.result = result := by
    intro before shape hpushed
    obtain ⟨function, htype, hsame⟩ := Store.type?_of_result? _ hpushed
    rw [type?_pushType] at htype
    split at htype
    · exact Or.inr ⟨function, Option.some.inj htype, hsame⟩
    · refine Or.inl ?_
      unfold Store.result?
      rw [htype, ← hsame]
  cases h with
  | value => exact Or.inl hresult
  | object name origin =>
    rcases hpushed hresult with hold | ⟨function, hshape, -⟩
    · exact Or.inl hold
    · cases hshape
  | function name parameters origin =>
    rcases hpushed hresult with hold | ⟨function, hshape, hsame⟩
    · exact Or.inl hold
    · cases hshape
      exact Or.inr (Nat.le_of_eq (congrArg ValueId.index hsame))
  | hold value htype => exact Or.inl hresult
  | release hreleased => exact hreleased.elim
  | @member other found name hobject hname =>
    have hplace : (store.addMember other found name).place? (fun _ => none) (.result type) =
        store.place? (fun _ => none) (.result type) := by
      rw [place?_addMember hobject, if_neg]
      rintro ⟨⟩
    exact Or.inl (hplace.symm.trans hresult)
  | property hvalue hname => exact Or.inl hresult
  | enumerate value names => exact Or.inl hresult
  | document document doc =>
    have hplace : (store.setDoc document doc).place? (fun _ => none) (.result type) =
        store.place? (fun _ => none) (.result type) := place?_setDoc document doc (.result type)
    exact Or.inl (hplace.symm.trans hresult)

theorem Change.advances (h : Change (fun _ _ => False) store next) : store.Advances next := by
  refine ⟨h.extends, fun value => ?_, fun type result => h.results⟩
  cases hheld : store.value? value with
  | none => simp [Store.typesOf, hheld]
  | some held =>
    obtain ⟨new, hnew, hrenews⟩ := h.value? hheld
    rw [typesOf_eq store hheld, typesOf_eq next hnew]
    exact hrenews.prefix_types

theorem Changes.advances (h : Changes (fun _ _ => False) store next) : store.Advances next := by
  induction h with
  | refl => exact .refl store
  | tail _ hchange ih => exact ih.trans hchange.advances

theorem Changes.sound {locals : Variables} (h : Changes (fun _ _ => False) store next)
    (hsound : store.Sound locals) : next.Sound locals := by
  induction h with
  | refl => exact hsound
  | tail _ hchange ih => exact hchange.sound ih

/-! ### Types that flow into a value -/

/-- Types have flowed into a value: no other value holds more, and no type has changed. -/
structure Filled (target : ValueId) (types : List TypeId) (store next : Store) : Prop where
  changes : Changes (fun _ _ => False) store next
  type? : ∀ type, next.type? type = store.type? type
  others : ∀ value, value ≠ target → next.typesOf value = store.typesOf value
  own : ∀ type ∈ next.typesOf target, type ∈ store.typesOf target ∨ type ∈ types

theorem Filled.refl (target : ValueId) (store : Store) : Filled target [] store store :=
  ⟨.refl, fun _ => rfl, fun _ _ => rfl, fun _ h => Or.inl h⟩

/-- A type is added only if it and the value are there. -/
theorem addType_ok {fresh : Bool} (h : store.addType value type = (.ok fresh, next)) :
    type.index < store.types.size ∧ ∃ held, store.value? value = some held ∧
      next = store.modifyValue value (withType type) := by
  by_cases htype : type.index < store.types.size
  · cases hvalue : store.value? value with
    | none =>
      unfold addType at h
      rw [hvalue] at h
      split at h <;> cases h
    | some held =>
      rw [addType_eq store htype hvalue] at h
      cases h
      exact ⟨htype, held, rfl, rfl⟩
  · have hnone : store.type? type = none := by
      simpa [Store.type?] using htype
    unfold addType at h
    rw [hnone] at h
    cases h

theorem filled_addType {fresh : Bool} (h : store.addType value type = (.ok fresh, next)) :
    Filled value [type] store next := by
  obtain ⟨htype, held, hvalue, rfl⟩ := addType_ok h
  refine ⟨.single (.hold value htype), fun _ => rfl,
    fun other hne => typesOf_modifyValue_of_ne hne, fun other hother => ?_⟩
  rw [typesOf_modifyValue_self hvalue] at hother
  rw [typesOf_eq store hvalue]
  exact (mem_insertNew.1 hother).imp_right List.mem_singleton.2

theorem filled_addTypes {types : List TypeId}
    (h : store.addTypes target types = (.ok (), next)) : Filled target types store next := by
  induction types generalizing store with
  | nil =>
    cases h
    exact .refl target _
  | cons type rest ih =>
    unfold addTypes at h
    cases hadd : store.addType target type with
    | mk outcome middle =>
      rw [hadd] at h
      cases outcome with
      | error error => cases h
      | ok fresh =>
        have hfirst := filled_addType hadd
        have hrest := ih h
        refine ⟨hfirst.changes.trans hrest.changes,
          fun other => (hrest.type? other).trans (hfirst.type? other),
          fun other hne => (hrest.others other hne).trans (hfirst.others other hne), ?_⟩
        intro other hother
        rcases hrest.own other hother with hmiddle | hlater
        · refine (hfirst.own other hmiddle).imp_right fun hsame => ?_
          rw [List.mem_singleton.1 hsame]
          exact List.mem_cons_self
        · exact Or.inr (List.mem_cons_of_mem _ hlater)

theorem filled_propagate (h : store.propagate source target = (.ok (), next)) :
    Filled target (store.typesOf source) store next := by
  unfold propagate at h
  cases hsource : store.value? source with
  | none =>
    rw [hsource] at h
    cases h
  | some held =>
    rw [hsource] at h
    rw [typesOf_eq store hsource]
    exact filled_addTypes h

/-- All the types that are added are held. -/
theorem mem_typesOf_of_addTypes {types : List TypeId}
    (h : store.addTypes target types = (.ok (), next)) :
    ∀ type ∈ types, type ∈ next.typesOf target := by
  induction types generalizing store with
  | nil => exact fun _ h => absurd h List.not_mem_nil
  | cons type rest ih =>
    unfold addTypes at h
    cases hadd : store.addType target type with
    | mk outcome middle =>
      rw [hadd] at h
      cases outcome with
      | error error => cases h
      | ok fresh =>
        intro other hother
        rcases List.mem_cons.1 hother with rfl | hother
        · obtain ⟨-, held, hvalue, rfl⟩ := addType_ok hadd
          refine (filled_addTypes h).changes.advances.mem_typesOf ?_
          rw [typesOf_modifyValue_self hvalue]
          exact mem_insertNew.2 (Or.inr rfl)
        · exact ih h other hother

theorem mem_typesOf_of_propagate (h : store.propagate source target = (.ok (), next)) :
    ∀ type ∈ store.typesOf source, type ∈ next.typesOf target := by
  unfold propagate at h
  cases hsource : store.value? source with
  | none =>
    rw [hsource] at h
    cases h
  | some held =>
    rw [hsource] at h
    rw [typesOf_eq store hsource]
    exact mem_typesOf_of_addTypes h

/-- What a value holds after the flow it held before or has received. -/
theorem Filled.mem_typesOf {types : List TypeId} (h : Filled target types store next)
    (htype : type ∈ next.typesOf value) :
    type ∈ store.typesOf value ∨ value = target ∧ type ∈ types := by
  by_cases heq : value = target
  · subst heq
    exact (h.own type htype).imp_right fun hmem => ⟨rfl, hmem⟩
  · rw [h.others value heq] at htype
    exact Or.inl htype

/-! ### Members -/

/-- A member was there, or it is the only thing that is new. -/
theorem ensureMember_ok {member : ValueId}
    (h : store.ensureMember object name = (.ok member, next)) :
    ∃ found, store.object? object = some found ∧
      (found.members.get? name = some member ∧ next = store ∨
        found.members.get? name = none ∧ member = ⟨store.values.size⟩ ∧
          next = store.addMember object found name) := by
  cases hobject : store.object? object with
  | none =>
    unfold ensureMember at h
    rw [hobject] at h
    cases h
  | some found =>
    refine ⟨found, rfl, ?_⟩
    cases hmember : found.members.get? name with
    | some old =>
      rw [ensureMember_present store hobject hmember] at h
      cases h
      exact Or.inl ⟨rfl, rfl⟩
    | none =>
      rw [ensureMember_absent store hobject hmember] at h
      cases h
      exact Or.inr ⟨rfl, rfl, rfl⟩

end Store

end Capabilities.Types
