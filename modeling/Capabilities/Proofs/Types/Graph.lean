import Capabilities.Proofs.Types.Additions
import Capabilities.Proofs.Types.Embedding
import Capabilities.Proofs.Types.Territory

/-!
# What can be reached from a type

A type leads to the types that its members and its result hold. If every type that can be reached
is what it was and holds what it held, the same types can be reached as before: a change that
touches none of them cannot be seen from there.
-/

namespace Capabilities.Types.Store

/-- One type can be reached from another over members and results. -/
inductive Reaches (store : Store) (type : TypeId) : TypeId → Prop
  | self : store.Reaches type type
  | member {other next : TypeId} {name : String} {value : ValueId} (h : store.Reaches type other)
      (hmember : store.member? other name = some value) (hheld : next ∈ store.typesOf value) :
      store.Reaches type next
  | result {other next : TypeId} {value : ValueId} (h : store.Reaches type other)
      (hresult : store.result? other = some value) (hheld : next ∈ store.typesOf value) :
      store.Reaches type next

/-- The same types can be reached from a type as before, and all of them are what they were: names,
    members in order, parameters, documentation and origins, and what members and results hold. -/
structure GraphStays (type : TypeId) (before after : Store) : Prop where
  reaches : ∀ other, after.Reaches type other ↔ before.Reaches type other
  stays : ∀ other, before.Reaches type other → TypeStays other before after

variable {type other : TypeId} {locals : Variables} {before middle after store : Store}

/-- What can be reached changes only with a type that can be reached. -/
theorem graphStays_of_stays
    (h : ∀ other, before.Reaches type other → TypeStays other before after) :
    GraphStays type before after := by
  refine ⟨fun other => ⟨?_, ?_⟩, h⟩
  · intro hafter
    induction hafter with
    | self => exact .self
    | member _ hmember hheld ih =>
      have hstays := h _ ih
      rw [hstays.member?] at hmember
      rw [hstays.member _ _ hmember] at hheld
      exact .member ih hmember hheld
    | result _ hresult hheld ih =>
      have hstays := h _ ih
      rw [hstays.result?] at hresult
      rw [hstays.result _ hresult] at hheld
      exact .result ih hresult hheld
  · intro hbefore
    induction hbefore with
    | self => exact .self
    | member hreached hmember hheld ih =>
      have hstays := h _ hreached
      refine .member ih ((hstays.member? _).trans hmember) ?_
      rw [hstays.member _ _ hmember]
      exact hheld
    | result hreached hresult hheld ih =>
      have hstays := h _ hreached
      refine .result ih (hstays.result?.trans hresult) ?_
      rw [hstays.result _ hresult]
      exact hheld

/-- Nothing outside a sound store can be reached from a type in it. -/
theorem Sound.lt_of_reaches (h : store.Sound locals) (hlt : type.index < store.types.size)
    (hreaches : store.Reaches type other) : other.index < store.types.size := by
  cases hreaches with
  | self => exact hlt
  | member _ _ hheld => exact h.held _ _ hheld
  | result _ _ hheld => exact h.held _ _ hheld

/-! ### Stores that only gain -/

/-- A store has gained what is embedded behind it. -/
theorem Embeds.gains {shift : Shift} {own : Store} {new : Variables}
    (h : Embeds shift before own after) (hown : own.Sound new) : Gains before after := by
  refine ⟨h.types_le hown, h.values_le, h.old_type, h.old_value, ?_⟩
  intro locals hsound
  exact h.sound hsound hown fun of value hof => Or.inl hof

theorem Gains.typeStays (h : Gains before after) (hsound : before.Sound locals)
    (hlt : type.index < before.types.size) : TypeStays type before after := by
  refine ⟨h.type type hlt, ?_, ?_⟩
  · intro name value hvalue
    exact typesOf_of_value?_eq (h.value value (hsound.placed (.member type name) value hvalue))
  · intro value hvalue
    exact typesOf_of_value?_eq (h.value value (hsound.placed (.result type) value hvalue))

/-! ### A type that is looked after -/

/-- All that could be reached from a type in a former store is what it was. -/
def Unchanged (former : Store) (type : TypeId) (store : Store) : Prop :=
  ∀ other, former.Reaches type other →
    TypeStays other former store ∧ other.index < store.types.size

theorem Unchanged.graphStays (h : Unchanged before type after) : GraphStays type before after :=
  graphStays_of_stays fun other hreaches => (h other hreaches).1

theorem Sound.unchanged (h : store.Sound locals) (hlt : type.index < store.types.size) :
    Unchanged store type store :=
  fun other hreaches => ⟨.refl other store, h.lt_of_reaches hlt hreaches⟩

theorem Unchanged.trans (h : Unchanged before type middle)
    (hle : middle.types.size ≤ after.types.size)
    (hstays : ∀ other, before.Reaches type other → other.index < middle.types.size →
      TypeStays other middle after) : Unchanged before type after := by
  intro other hreaches
  obtain ⟨hsame, hlt⟩ := h other hreaches
  exact ⟨hsame.trans (hstays other hreaches hlt), Nat.lt_of_lt_of_le hlt hle⟩

end Capabilities.Types.Store
