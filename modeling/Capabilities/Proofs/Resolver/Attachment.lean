import Capabilities.Proofs.Resolver.Scheduling
import Capabilities.Proofs.Session.Program
import Capabilities.Proofs.Steps
import Capabilities.Proofs.Types.Territory
import Capabilities.Resolver.Binding

/-!
# Attaching a type to an import

Binding one name of one entry function puts the type registered for it in the place of the type
bound before, at three kinds of places: the member of the parameter, the member of the imports
object, and the variables that give the import a name. If that type was bound before, nothing is
done. Nothing is ever refused, as the store is sound and what is registered is in it.
-/

namespace Capabilities.Resolver

open Host Session Capabilities.Types Capabilities.Module

/-! ### Runs of single steps -/

def Work.withStore (work : Work) (store : Store) : Work :=
  { work with program := work.program.withStore store }

@[simp] theorem store_withStore (work : Work) (store : Store) :
    (work.withStore store).program.store = store := rfl

@[simp] theorem state_withStore (work : Work) (store : Store) :
    (work.withStore store).state = work.state := rfl

@[simp] theorem withStore_withStore (work : Work) (first second : Store) :
    (work.withStore first).withStore second = work.withStore second := rfl

theorem withStore_self (work : Work) : work.withStore work.program.store = work := rfl

theorem runOn_bind {α β : Type} {step : Resolve α} {rest : α → Resolve β} {work next : Work}
    {answer : α} (h : step.runOn work = (.ok answer, next)) :
    (step >>= rest).runOn work = (rest answer).runOn next :=
  run_bind_ok h

theorem run_onStore {α : Type} (operation : Store → Except StoreError α × Store) (work : Work) :
    (Resolve.onStore operation).runOn work =
      ((operation work.program.store).1, work.withStore (operation work.program.store).2) := rfl

theorem run_addType {work : Work} {value : ValueId} {type : TypeId} {held : AbstractValue}
    (ht : type.index < work.program.store.types.size)
    (hv : work.program.store.value? value = some held) :
    (Resolve.addType value type).runOn work =
      (.ok (), work.withStore (work.program.store.modifyValue value (Store.withType type))) := by
  have hrun := run_onStore (·.addType value type) work
  rw [Store.addType_eq _ ht hv] at hrun
  exact runOn_bind hrun

theorem run_removeType {work : Work} {value : ValueId} {type : TypeId} {held : AbstractValue}
    (hv : work.program.store.value? value = some held) :
    (Resolve.removeType value type).runOn work =
      (.ok (), work.withStore (work.program.store.modifyValue value (Store.withoutType type))) := by
  have hrun := run_onStore (·.removeType value type) work
  rw [Store.removeType_eq _ hv] at hrun
  exact runOn_bind hrun

theorem run_setEnumeration {work : Work} {value : ValueId} {names : List String}
    {held : AbstractValue} (hv : work.program.store.value? value = some held) :
    (Resolve.onStore (·.setEnumeration value names)).runOn work =
      (.ok (), work.withStore (work.program.store.modifyValue value
        fun held => { held with enumeration := some names })) := by
  have hrun := run_onStore (·.setEnumeration value names) work
  rw [Store.setEnumeration_eq _ hv] at hrun
  exact hrun

/-! ### Replacing a type at several places -/

/-- The store in which a type is put in the place of another in each of some values. -/
def exchangeAll (old : Option TypeId) (new : TypeId) : List ValueId → Store → Store
  | [], store => store
  | value :: rest, store =>
    exchangeAll old new rest (store.modifyValue value (Store.exchange old new))

theorem run_replaceType {work : Work} {old : Option TypeId} {new : TypeId} {value : ValueId}
    (hnew : new.index < work.program.store.types.size)
    (hvalue : value.index < work.program.store.values.size) :
    (replaceType old (some new) value).runOn work =
      (.ok (), work.withStore
        (work.program.store.modifyValue value (Store.exchange old new))) := by
  obtain ⟨held, hheld⟩ := work.program.store.exists_value? hvalue
  cases old with
  | none => exact run_addType hnew hheld
  | some old =>
    let removed := work.withStore
      (work.program.store.modifyValue value (Store.withoutType old))
    have hremove : (Resolve.removeType value old).runOn work = (.ok (), removed) :=
      run_removeType hheld
    have hheld' : removed.program.store.value? value = some (Store.withoutType old held) := by
      rw [store_withStore, Store.value?_modifyValue, if_pos rfl, hheld]
      rfl
    have hadd : (Resolve.addType value new).runOn removed = _ := run_addType hnew hheld'
    rw [store_withStore, withStore_withStore, Store.modifyValue_modifyValue] at hadd
    exact (runOn_bind hremove).trans hadd

theorem run_replaceAll {old : Option TypeId} {new : TypeId} {values : List ValueId} {work : Work}
    (hnew : new.index < work.program.store.types.size)
    (hvalues : ∀ value ∈ values, value.index < work.program.store.values.size) :
    (values.forM (replaceType old (some new))).runOn work =
      (.ok (), work.withStore (exchangeAll old new values work.program.store)) := by
  induction values generalizing work with
  | nil => rfl
  | cons value rest ih =>
    refine (runOn_bind (run_replaceType hnew (hvalues value (by simp)))).trans ?_
    refine (ih ?_ ?_).trans rfl
    · exact hnew
    · intro other hother
      rw [store_withStore, Store.values_size_modifyValue]
      exact hvalues other (by simp [hother])

theorem typesOf_exchangeAll {old : Option TypeId} {new : TypeId} {values : List ValueId}
    {store : Store} {value : ValueId} (h : value ∉ values) :
    (exchangeAll old new values store).typesOf value = store.typesOf value := by
  induction values generalizing store with
  | nil => rfl
  | cons other rest ih =>
    unfold exchangeAll
    rw [ih (fun hmem => h (by simp [hmem])), Store.typesOf_modifyValue_of_ne]
    rintro rfl
    exact h (by simp)

/-- Only the old type is lost. -/
theorem mem_typesOf_exchangeAll {old : Option TypeId} {new type : TypeId}
    {values : List ValueId} {store : Store} {value : ValueId} (h : type ∈ store.typesOf value)
    (hne : old ≠ some type) : type ∈ (exchangeAll old new values store).typesOf value := by
  induction values generalizing store with
  | nil => exact h
  | cons other rest ih =>
    exact ih (Store.mem_typesOf_modifyValue (fun _ hheld => Store.mem_types_exchange hheld hne) h)

/-- Each of the values gets the new type. -/
theorem new_mem_exchangeAll {old : Option TypeId} {new : TypeId} {values : List ValueId}
    {store : Store} {value : ValueId} (hmem : value ∈ values)
    (hlt : value.index < store.values.size) :
    new ∈ (exchangeAll old new values store).typesOf value := by
  induction values generalizing store with
  | nil => cases hmem
  | cons other rest ih =>
    by_cases hrest : value ∈ rest
    · refine ih hrest ?_
      rw [Store.values_size_modifyValue]
      exact hlt
    · obtain rfl := (List.mem_cons.1 hmem).resolve_right hrest
      obtain ⟨held, hheld⟩ := store.exists_value? hlt
      unfold exchangeAll
      rw [typesOf_exchangeAll hrest, Store.typesOf_modifyValue_self hheld]
      exact Store.new_mem_types_exchange old new held

theorem sound_exchangeAll {locals : Variables} {old : Option TypeId} {new : TypeId}
    {values : List ValueId} {store : Store} (h : store.Sound locals)
    (hnew : new.index < store.types.size) : (exchangeAll old new values store).Sound locals := by
  induction values generalizing store with
  | nil => exact h
  | cons value rest ih => exact ih (h.exchange hnew) hnew

theorem touches_exchangeAll {locals : Variables} {writes : Place → Prop} {object : TypeId}
    {old : Option TypeId} {new : TypeId} {values : List ValueId} {store : Store}
    (hvalues : ∀ value ∈ values, ∃ place, writes place ∧
      store.place? locals place = some value) :
    Store.Touches locals writes object store (exchangeAll old new values store) := by
  induction values generalizing store with
  | nil => exact .refl _ _ _ _
  | cons value rest ih =>
    obtain ⟨place, hwrites, hplace⟩ := hvalues value (by simp)
    have hmembers := fun held => Store.members_exchange old new held
    refine (Store.Touches.modifyValue hmembers hwrites hplace).trans (ih ?_)
    intro other hother
    obtain ⟨place, hwrites, hplace⟩ := hvalues other (by simp [hother])
    refine ⟨place, hwrites, ?_⟩
    rw [Store.place?_modifyValue hmembers]
    exact hplace

/-- A value among those that a type is put into, what it held being nothing, the old type or the
    new one. -/
theorem typesOf_exchangeAll_cons {old shown : Option TypeId} {new : TypeId} {value : ValueId}
    {rest : List ValueId} {store : Store} (hlt : value.index < store.values.size)
    (hrest : value ∉ rest) (hne : old ≠ some new) (hshown : shown = old ∨ shown = some new)
    (htypes : store.typesOf value = shown.toList) :
    (exchangeAll old new (value :: rest) store).typesOf value = [new] := by
  obtain ⟨held, hheld⟩ := store.exists_value? hlt
  rw [Store.typesOf_eq _ hheld] at htypes
  unfold exchangeAll
  rw [typesOf_exchangeAll hrest, Store.typesOf_modifyValue_self hheld]
  refine Store.types_exchange hne ?_
  rw [htypes]
  cases shown with
  | none => exact Or.inl rfl
  | some type =>
    rcases hshown with rfl | heq
    · exact Or.inr (Or.inl ⟨type, rfl, rfl⟩)
    · cases heq
      exact Or.inr (Or.inr rfl)

/-! ### Attaching -/

/-- The values of a site are variables of its file. -/
structure SiteIn (locals : Variables) (site : ConsumerSite) : Prop where
  imports : ∃ of : Variable, of.file = site.file ∧ locals of = some site.imports
  aliases : ∀ item ∈ site.aliases, ∃ of : Variable, of.file = site.file ∧
    locals of = some item.2

/-- The places that binding a name at a site writes to. -/
def nameWrites (locals : Variables) (site : ConsumerSite) (object : TypeId) (name : String) :
    Place → Prop
  | .ofVariable of => ∃ item ∈ site.aliases, locals of = some item.2
  | .member owner key => owner = object ∧ key = name
  | .result _ => False
  | .property owner key => owner = site.imports ∧ key = name

/-- The members of values, and those of some object types. -/
def memberOf (objects : TypeId → Prop) : Place → Prop
  | .ofVariable _ => False
  | .member owner _ => objects owner
  | .result _ => False
  | .property _ _ => True

theorem run_attach_same {work : Work} {site : ConsumerSite} {object : TypeId} {name : String}
    {type : Option TypeId} (h : (work.state.binding? site.file).bind (·.type? name) = type) :
    (attach site object name type).runOn work = (.ok (), work) := by
  have hget : Resolve.state.runOn work = (.ok work.state, work) := rfl
  refine (runOn_bind hget).trans ?_
  rw [h]
  simp only [beq_self_eq_true, if_true]
  rfl

/-- The variables that give an import a name of their own. -/
def named (site : ConsumerSite) (name : String) : List ValueId :=
  (site.aliases.filter (·.1 == name)).map Prod.snd

theorem variable_of_mem_named {locals : Variables} {site : ConsumerSite} {name : String}
    {value : ValueId} (hsite : SiteIn locals site) (hvalue : value ∈ named site name) :
    ∃ of : Variable, of.file = site.file ∧ locals of = some value := by
  obtain ⟨item, hitem, rfl⟩ := List.mem_map.1 hvalue
  exact hsite.aliases item (List.mem_filter.1 hitem).1

theorem exists_of_mem_named {locals : Variables} {site : ConsumerSite} {name : String}
    {value : ValueId} (hsite : SiteIn locals site) (hvalue : value ∈ named site name)
    (object : TypeId) :
    ∃ of : Variable, nameWrites locals site object name (.ofVariable of) ∧
      locals of = some value := by
  obtain ⟨item, hitem, rfl⟩ := List.mem_map.1 hvalue
  have hitem := (List.mem_filter.1 hitem).1
  obtain ⟨of, _, hof⟩ := hsite.aliases item hitem
  exact ⟨of, ⟨item, hitem, hof⟩, hof⟩

/-- The store has become `after` by making sure that both members of a name are there: `direct` of
    the parameter and `member` of the imports object. Both hold what was to be seen. -/
structure Membered (locals : Variables) (site : ConsumerSite) (object : TypeId) (name : String)
    (shown : Option TypeId) (direct member : ValueId) (before after : Store) : Prop where
  sound : after.Sound locals
  touches : Store.Touches locals (nameWrites locals site object name) object before after
  direct_place : after.place? locals (.property site.imports name) = some direct
  member_place : after.place? locals (.member object name) = some member
  direct_types : after.typesOf direct = shown.toList
  member_types : after.typesOf member = shown.toList
  types : ∀ value, after.typesOf value = before.typesOf value

theorem exists_membered {locals : Variables} {site : ConsumerSite} {object : TypeId}
    {name : String} {shown : Option TypeId} {store : Store} (hsound : store.Sound locals)
    (hsite : SiteIn locals site) (hobject : (store.object? object).isSome = true)
    (hproperty : store.Shows locals (.property site.imports name) shown)
    (hmember : store.Shows locals (.member object name) shown) :
    ∃ direct member first after, store.valueMember site.imports name = (.ok direct, first) ∧
      first.ensureMember object name = (.ok member, after) ∧
      Membered locals site object name shown direct member store after := by
  obtain ⟨importsVariable, _, himports⟩ := hsite.imports
  obtain ⟨direct, first, hdirect, hsound₁, htouches₁, hplace₁, htypes₁, hfirst⟩ :=
    Store.valueMember_shows object hsound
      (hsound.placed (.ofVariable importsVariable) site.imports himports) hproperty
  have hmember₁ : first.Shows locals (.member object name) shown :=
    htouches₁.shows hsound (by rintro ⟨⟩) hmember
  obtain ⟨member, after, hensure, hsound₂, htouches₂, hplace₂, htypes₂, hafter⟩ :=
    Store.ensureMember_shows hsound₁ (htouches₁.object_stays hobject) hmember₁
  refine ⟨direct, member, first, after, hdirect, hensure, hsound₂, ?_,
    htouches₂.kept _ _ hplace₁, hplace₂, (hafter direct).trans htypes₁, htypes₂,
    fun value => (hafter value).trans (hfirst value)⟩
  refine (htouches₁.mono ?_).trans (htouches₂.mono ?_)
  · rintro place rfl
    exact ⟨rfl, rfl⟩
  · rintro place rfl
    exact ⟨rfl, rfl⟩

section Membered

variable {locals : Variables} {site : ConsumerSite} {object new : TypeId} {name : String}
  {bound shown : Option TypeId} {direct member : ValueId} {before after : Store}

/-- The values that get the type are at places that binding the name writes to. -/
theorem Membered.places (h : Membered locals site object name shown direct member before after)
    (hsite : SiteIn locals site) :
    ∀ value ∈ direct :: member :: named site name, ∃ place,
      nameWrites locals site object name place ∧ after.place? locals place = some value := by
  intro value hvalue
  rcases List.mem_cons.1 hvalue with rfl | hvalue
  · exact ⟨.property site.imports name, ⟨rfl, rfl⟩, h.direct_place⟩
  · rcases List.mem_cons.1 hvalue with rfl | hvalue
    · exact ⟨.member object name, ⟨rfl, rfl⟩, h.member_place⟩
    · obtain ⟨of, hwrites, hof⟩ := exists_of_mem_named hsite hvalue object
      exact ⟨.ofVariable of, hwrites, hof⟩

theorem Membered.member_ne (h : Membered locals site object name shown direct member before after) :
    member ≠ direct := by
  rintro rfl
  cases h.sound.distinct _ _ _ h.direct_place h.member_place

theorem Membered.direct_not_mem
    (h : Membered locals site object name shown direct member before after)
    (hsite : SiteIn locals site) : direct ∉ named site name := by
  intro hmem
  obtain ⟨of, _, hof⟩ := exists_of_mem_named hsite hmem object
  cases h.sound.distinct _ (.ofVariable of) _ h.direct_place hof

theorem Membered.member_not_mem
    (h : Membered locals site object name shown direct member before after)
    (hsite : SiteIn locals site) : member ∉ named site name := by
  intro hmem
  obtain ⟨of, _, hof⟩ := exists_of_mem_named hsite hmem object
  cases h.sound.distinct _ (.ofVariable of) _ h.member_place hof

/-- What is no member is none of the two. -/
theorem Membered.mem_iff {value : ValueId}
    (h : Membered locals site object name shown direct member before after)
    (hout : Store.Outside locals (memberOf (· = object)) before value) :
    value ∈ direct :: member :: named site name ↔ value ∈ named site name := by
  have hout' := h.touches.outside hout
  have hdirect : value ≠ direct := by
    rintro rfl
    exact hout'.out (.property site.imports name) trivial h.direct_place
  have hmember : value ≠ member := by
    rintro rfl
    exact hout'.out (.member object name) rfl h.member_place
  simp [hdirect, hmember]

/-- Once the type is in its place, both members show it. -/
theorem Membered.shows (h : Membered locals site object name shown direct member before after)
    (hsite : SiteIn locals site) (hbound : bound ≠ some new)
    (hshown : shown = bound ∨ shown = some new) :
    let last := exchangeAll bound new (direct :: member :: named site name) after
    last.Shows locals (.property site.imports name) (some new) ∧
      last.Shows locals (.member object name) (some new) := by
  have htouches : Store.Touches locals (nameWrites locals site object name) object after
      (exchangeAll bound new (direct :: member :: named site name) after) :=
    touches_exchangeAll (h.places hsite)
  refine ⟨⟨direct, htouches.kept _ _ h.direct_place, ?_⟩,
    ⟨member, htouches.kept _ _ h.member_place, ?_⟩⟩
  · have hrest : direct ∉ member :: named site name :=
      List.not_mem_cons_of_ne_of_not_mem (Ne.symm h.member_ne) (h.direct_not_mem hsite)
    exact typesOf_exchangeAll_cons (h.sound.placed _ _ h.direct_place) hrest hbound hshown
      h.direct_types
  · -- the member of the parameter comes first, and is another value
    have hlt : member.index <
        (after.modifyValue direct (Store.exchange bound new)).values.size := by
      rw [Store.values_size_modifyValue]
      exact h.sound.placed _ _ h.member_place
    refine typesOf_exchangeAll_cons hlt (h.member_not_mem hsite) hbound hshown ?_
    rw [Store.typesOf_modifyValue_of_ne h.member_ne]
    exact h.member_types

end Membered

theorem run_attach_membered {work : Work} {site : ConsumerSite} {object new : TypeId}
    {name : String} {direct member : ValueId} {first second : Store}
    (hbound : (work.state.binding? site.file).bind (·.type? name) ≠ some new)
    (hdirect : work.program.store.valueMember site.imports name = (.ok direct, first))
    (hmember : first.ensureMember object name = (.ok member, second))
    (hnew : new.index < second.types.size)
    (hplaced : ∀ value ∈ direct :: member :: named site name,
      value.index < second.values.size) :
    (attach site object name (some new)).runOn work = (.ok (), work.withStore
      (exchangeAll ((work.state.binding? site.file).bind (·.type? name)) new
        (direct :: member :: named site name) second)) := by
  have hget : Resolve.state.runOn work = (.ok work.state, work) := rfl
  have hrunDirect : (Resolve.onStore (·.valueMember site.imports name)).runOn work =
      (.ok direct, work.withStore first) := by
    rw [run_onStore, hdirect]
  have hrunMember : (Resolve.onStore (·.ensureMember object name)).runOn (work.withStore first) =
      (.ok member, work.withStore second) := by
    rw [run_onStore, store_withStore, hmember]
    rfl
  refine (runOn_bind hget).trans ?_
  dsimp only
  rw [beq_eq_false_iff_ne.2 hbound]
  refine (runOn_bind hrunDirect).trans ?_
  refine (runOn_bind hrunMember).trans ?_
  exact run_replaceAll hnew hplaced

/-- Attaching a type that was not bound before: afterwards both members show it, and so do the
    variables that give the import a name. `shown` is what the members showed before. -/
theorem run_attach {work : Work} {site : ConsumerSite} {object new : TypeId} {name : String}
    {shown : Option TypeId} (hsound : work.program.store.Sound work.program.locals)
    (hsite : SiteIn work.program.locals site)
    (hobject : (work.program.store.object? object).isSome = true)
    (hnew : new.index < work.program.store.types.size)
    (hbound : (work.state.binding? site.file).bind (·.type? name) ≠ some new)
    (hshown : shown = (work.state.binding? site.file).bind (·.type? name) ∨ shown = some new)
    (hproperty : work.program.store.Shows work.program.locals
      (.property site.imports name) shown)
    (hmember : work.program.store.Shows work.program.locals (.member object name) shown) :
    ∃ after, (attach site object name (some new)).runOn work = (.ok (), work.withStore after) ∧
      after.Sound work.program.locals ∧
      Store.Touches work.program.locals
        (nameWrites work.program.locals site object name) object work.program.store after ∧
      after.Shows work.program.locals (.property site.imports name) (some new) ∧
      after.Shows work.program.locals (.member object name) (some new) ∧
      (∀ value type, type ∈ work.program.store.typesOf value →
        (work.state.binding? site.file).bind (·.type? name) ≠ some type →
        type ∈ after.typesOf value) ∧
      ∀ value, Store.Outside work.program.locals (memberOf (· = object)) work.program.store value →
        (value ∉ named site name →
          after.typesOf value = work.program.store.typesOf value) ∧
        (value ∈ named site name → new ∈ after.typesOf value) := by
  obtain ⟨direct, member, first, second, hdirect, hensure, hmembered⟩ :=
    exists_membered hsound hsite hobject hproperty hmember
  have hnew₂ : new.index < second.types.size := by
    rw [hmembered.touches.types_size]
    exact hnew
  have hplaced : ∀ value ∈ direct :: member :: named site name,
      value.index < second.values.size := by
    intro value hvalue
    obtain ⟨place, _, hplace⟩ := hmembered.places hsite value hvalue
    exact hmembered.sound.placed place value hplace
  obtain ⟨hproperty', hmember'⟩ := hmembered.shows hsite hbound hshown
  refine ⟨_, run_attach_membered hbound hdirect hensure hnew₂ hplaced,
    sound_exchangeAll hmembered.sound hnew₂,
    hmembered.touches.trans (touches_exchangeAll (hmembered.places hsite)),
    hproperty', hmember', ?_, ?_⟩
  · intro value type htype hkept
    refine mem_typesOf_exchangeAll ?_ hkept
    rw [hmembered.types]
    exact htype
  · intro value hout
    rw [← hmembered.types value, ← hmembered.mem_iff hout]
    exact ⟨typesOf_exchangeAll, fun hmem => new_mem_exchangeAll hmem (hplaced value hmem)⟩

end Capabilities.Resolver
