import Capabilities.Proofs.Types.Embedding

/-!
# Steps that the store may refuse

Inference and resolving are steps on a state that end with an answer or with a refusal of the
store.

`Twins.Agree` compares two runs of a step: one in a store of its own, the other in a larger store
in which the first is embedded. Both answer, the second with moved ids, and they stay twins.
-/

namespace Capabilities

open Capabilities.Types

variable {σ α β : Type}

/-! ### One run -/

theorem run_bind_ok {step : ExceptT StoreError (StateM σ) α}
    {rest : α → ExceptT StoreError (StateM σ) β} {state next : σ} {answer : α}
    (h : step.run.run state = (.ok answer, next)) :
    (step >>= rest).run.run state = (rest answer).run.run next := by
  rw [ExceptT.run_bind, StateT.run_bind, h]
  rfl

theorem run_bind_error {step : ExceptT StoreError (StateM σ) α}
    {rest : α → ExceptT StoreError (StateM σ) β} {state next : σ} {error : StoreError}
    (h : step.run.run state = (.error error, next)) :
    (step >>= rest).run.run state = (.error error, next) := by
  rw [ExceptT.run_bind, StateT.run_bind, h]
  rfl

/-! ### Growth -/

/-- A store has everything that another has, and its object types still are object types. -/
structure Types.Store.Grows (first second : Store) : Prop where
  types_le : first.types.size ≤ second.types.size
  values_le : first.values.size ≤ second.values.size
  object : ∀ type, (first.object? type).isSome = true → (second.object? type).isSome = true

theorem Types.Store.Grows.refl (store : Store) : store.Grows store :=
  ⟨Nat.le_refl _, Nat.le_refl _, fun _ h => h⟩

theorem Types.Store.Grows.trans {first second third : Store} (h : first.Grows second)
    (h' : second.Grows third) : first.Grows third :=
  ⟨Nat.le_trans h.types_le h'.types_le, Nat.le_trans h.values_le h'.values_le,
    fun type ht => h'.object type (h.object type ht)⟩

/-! ### Data that names ids -/

/-- Data that names types and values: how its ids are moved, and when they are all in a store. -/
class Located (α : Type) where
  move : Shift → α → α
  Within : Store → α → Prop
  mono : ∀ {first second : Store} {item : α}, first.Grows second →
    Within first item → Within second item

instance : Located Unit := ⟨fun _ item => item, fun _ _ => True, fun _ h => h⟩

instance : Located Bool := ⟨fun _ item => item, fun _ _ => True, fun _ h => h⟩

instance : Located ValueId where
  move := ValueId.move
  Within store value := value.index < store.values.size
  mono h hv := Nat.lt_of_lt_of_le hv h.values_le

instance : Located TypeId where
  move := TypeId.move
  Within store type := type.index < store.types.size
  mono h ht := Nat.lt_of_lt_of_le ht h.types_le

instance : Located String := ⟨fun _ item => item, fun _ _ => True, fun _ h => h⟩

instance [Located α] : Located (Option α) where
  move shift := Option.map (Located.move shift)
  Within store item := ∀ inner, item = some inner → Located.Within store inner
  mono h hi inner heq := Located.mono h (hi inner heq)

instance [Located α] : Located (List α) where
  move shift := List.map (Located.move shift)
  Within store items := ∀ item ∈ items, Located.Within store item
  mono h hi item hmem := Located.mono h (hi item hmem)

instance [Located α] [Located β] : Located (α × β) where
  move shift item := (Located.move shift item.1, Located.move shift item.2)
  Within store item := Located.Within store item.1 ∧ Located.Within store item.2
  mono h hi := ⟨Located.mono h hi.1, Located.mono h hi.2⟩

/-! ### Two operations -/

namespace Types.Store

/-- Every value holds types only: it has no members of its own, and no enumeration is set. -/
def Plain (store : Store) : Prop :=
  ∀ value held, store.value? value = some held → held.members = .empty ∧ held.enumeration = none

/-- A sound store of plain values, embedded in a larger one behind `base`. -/
structure Inside (shift : Shift) (base : Store) (locals : Variables) (own whole : Store) :
    Prop where
  embeds : Embeds shift base own whole
  sound : own.Sound locals
  plain : own.Plain

/-- From any store that has grown out of `start`, and from every larger one around it, both
    operations answer, the second with moved ids, and the answer is as `good` says. -/
def Matched [Located α] (shift : Shift) (base start : Store)
    (operation twin : Store → Except StoreError α × Store) (good : Store → α → Prop) : Prop :=
  ∀ locals own whole, Inside shift base locals own whole → start.Grows own →
    ∃ answer next nextWhole, operation own = (.ok answer, next) ∧
      twin whole = (.ok (Located.move shift answer), nextWhole) ∧
      Inside shift base locals next nextWhole ∧ own.Grows next ∧ good next answer

variable {shift : Shift} {base start own whole store : Store} {locals : Variables}

theorem Plain.modifyValue {value : ValueId} {change : AbstractValue → AbstractValue}
    (h : store.Plain) (hmembers : ∀ held, (change held).members = held.members)
    (henumeration : ∀ held, (change held).enumeration = held.enumeration) :
    (store.modifyValue value change).Plain := by
  intro other held hother
  rw [value?_modifyValue] at hother
  split at hother
  · obtain ⟨before, hbefore, rfl⟩ := Option.map_eq_some_iff.1 hother
    rw [hmembers, henumeration]
    exact h other before hbefore
  · exact h other held hother

theorem Plain.newValue (h : store.Plain) : store.newValue.2.Plain := by
  intro value held hvalue
  rw [value?_newValue] at hvalue
  split at hvalue
  · cases hvalue
    exact ⟨rfl, rfl⟩
  · exact h value held hvalue

theorem Grows.newValue (store : Store) : store.Grows store.newValue.2 := by
  refine ⟨Nat.le_refl _, ?_, fun _ h => h⟩
  rw [values_size_newValue]
  exact Nat.le_succ _

theorem Grows.pushType (store : Store) (shape : TypeShape) :
    store.Grows (store.pushType shape).2 := by
  refine ⟨?_, Nat.le_refl _, ?_⟩
  · rw [types_size_pushType]
    exact Nat.le_succ _
  · intro type h
    obtain ⟨object, ho⟩ := Option.isSome_iff_exists.1 h
    have hlt := lt_of_type? (store.type?_of_object? ho)
    unfold object?
    rw [type?_pushType_of_lt hlt, store.type?_of_object? ho]
    rfl

theorem Grows.modifyValue (store : Store) (value : ValueId)
    (change : AbstractValue → AbstractValue) : store.Grows (store.modifyValue value change) := by
  refine ⟨Nat.le_refl _, ?_, fun _ h => h⟩
  exact Nat.le_of_eq (values_size_modifyValue ..).symm

theorem Grows.setType (store : Store) {type : TypeId} (object : ObjectType)
    (hlt : type.index < store.types.size) : store.Grows (store.setType type (.object object)) := by
  refine ⟨?_, Nat.le_refl _, ?_⟩
  · exact Nat.le_of_eq (types_size_setType ..).symm
  · intro other h
    have hset := store.type?_setType type other (.object object) hlt
    by_cases hother : other = type
    · rw [if_pos hother] at hset
      rw [object?_eq_some _ hset]
      rfl
    · rw [if_neg hother] at hset
      unfold object?
      rw [hset]
      exact h

theorem Grows.addMember (store : Store) {type : TypeId} {object : ObjectType} (name : String)
    (ho : store.object? type = some object) :
    store.Grows (store.addMember type object name) :=
  (Grows.newValue store).trans (Grows.setType _ _ (lt_of_type? (store.type?_of_object? ho)))

theorem Matched.newValue :
    Matched shift base start (fun store => (.ok store.newValue.1, store.newValue.2))
      (fun store => (.ok store.newValue.1, store.newValue.2))
      (Located.Within (α := ValueId)) := by
  intro locals own whole h _
  refine ⟨own.newValue.1, own.newValue.2, whole.newValue.2, rfl, ?_, ?_, Grows.newValue own, ?_⟩
  · simp only [h.embeds.newValue_fst]
    rfl
  · exact ⟨h.embeds.newValue, h.sound.newValue, h.plain.newValue⟩
  · change own.values.size < own.newValue.2.values.size
    rw [values_size_newValue]
    exact Nat.lt_succ_self _

theorem Matched.newObject (name origin : Option String) :
    Matched shift base start
      (fun store => (.ok (store.newObject name origin).1, (store.newObject name origin).2))
      (fun store => (.ok (store.newObject name origin).1, (store.newObject name origin).2))
      (fun store type => (store.object? type).isSome = true) := by
  intro locals own whole h _
  let shape : TypeShape := .object ⟨name, .empty, none, origin⟩
  refine ⟨(own.pushType shape).1, (own.pushType shape).2, (whole.pushType shape).2, rfl, ?_, ?_,
    Grows.pushType own shape, ?_⟩
  · have hfst := h.embeds.pushType_fst h.sound shape
    change ((.ok (whole.pushType shape).1 : Except StoreError TypeId), _) = _
    rw [show (whole.pushType shape).1 = (own.pushType shape).1.move shift from hfst]
    rfl
  · refine ⟨h.embeds.pushType h.sound shape, h.sound.newObject name origin, ?_⟩
    intro value held hvalue
    exact h.plain value held hvalue
  · have hnew := type?_pushType own shape ⟨own.types.size⟩
    rw [if_pos rfl] at hnew
    change ((own.pushType shape).2.object? ⟨own.types.size⟩).isSome = true
    rw [object?_eq_some _ hnew]
    rfl

theorem Matched.newFunction (name : Option String) (parameters : List String)
    (origin : Option String) :
    Matched shift base start
      (fun store => (.ok (store.newFunction name parameters origin).1,
        (store.newFunction name parameters origin).2))
      (fun store => (.ok (store.newFunction name parameters origin).1,
        (store.newFunction name parameters origin).2))
      (Located.Within (α := TypeId)) := by
  intro locals own whole h _
  let shape (store : Store) : TypeShape :=
    .function ⟨name, parameters, store.newValue.1, none, origin⟩
  have hshape : shape whole = (shape own).move shift := by
    simp only [shape, h.embeds.newValue_fst]
    rfl
  have hembeds := h.embeds.newValue
  have hfst := hembeds.pushType_fst h.sound.newValue (shape own)
  have hsnd := hembeds.pushType h.sound.newValue (shape own)
  rw [← hshape] at hfst hsnd
  refine ⟨(own.newValue.2.pushType (shape own)).1, (own.newValue.2.pushType (shape own)).2,
    (whole.newValue.2.pushType (shape whole)).2, rfl, ?_, ?_, ?_, ?_⟩
  · change ((.ok (whole.newValue.2.pushType (shape whole)).1 : Except StoreError TypeId), _) = _
    rw [hfst]
    rfl
  · refine ⟨hsnd, h.sound.newFunction name parameters origin, ?_⟩
    intro value held hvalue
    exact h.plain.newValue value held hvalue
  · exact (Grows.newValue own).trans (Grows.pushType _ _)
  · change own.newValue.2.types.size < (own.newValue.2.pushType (shape own)).2.types.size
    rw [types_size_pushType]
    exact Nat.lt_succ_self _

theorem Inside.withType {type : TypeId} (h : Inside shift base locals own whole)
    (value : ValueId) (ht : type.index < own.types.size) :
    Inside shift base locals (own.modifyValue value (withType type))
      (whole.modifyValue (value.move shift) (Store.withType (type.move shift))) :=
  ⟨h.embeds.modifyValue fun held => withType_move type held, h.sound.withType ht,
    h.plain.modifyValue (fun _ => rfl) fun _ => rfl⟩

theorem Matched.addType {value : ValueId} {type : TypeId} (hv : Located.Within start value)
    (ht : Located.Within start type) :
    Matched shift base start (·.addType value type)
      (·.addType (value.move shift) (type.move shift)) (fun _ _ => True) := by
  intro locals own whole h hgrows
  have ht' := Located.mono hgrows ht
  obtain ⟨held, hheld⟩ := own.exists_value? (Located.mono hgrows hv)
  have hheld' := h.embeds.own_value value
  rw [hheld] at hheld'
  refine ⟨!held.types.contains type, _, _, own.addType_eq ht' hheld, ?_,
    h.withType value ht', Grows.modifyValue _ _ _, trivial⟩
  refine (whole.addType_eq (h.embeds.lt_types ht') hheld').trans ?_
  simp only [AbstractValue.move, TypeId.contains_move]
  rfl

theorem Matched.addTypes {value : ValueId} {types : List TypeId}
    (hv : Located.Within start value) (ht : Located.Within start types) :
    Matched shift base start (·.addTypes value types)
      (·.addTypes (value.move shift) (types.map (·.move shift))) (fun _ _ => True) := by
  induction types generalizing start with
  | nil =>
    intro locals own whole h hgrows
    exact ⟨(), own, whole, rfl, rfl, h, .refl _, trivial⟩
  | cons type rest ih =>
    intro locals own whole h hgrows
    have ht' := Located.mono hgrows (ht type (by simp))
    have hv' := Located.mono hgrows hv
    obtain ⟨held, hheld⟩ := own.exists_value? hv'
    have hheld' := h.embeds.own_value value
    rw [hheld] at hheld'
    have hfirst := h.withType value ht'
    have hgrows' := Grows.modifyValue own value (Store.withType type)
    have hrest : Located.Within (own.modifyValue value (Store.withType type)) rest := by
      intro other hother
      exact Located.mono (hgrows.trans hgrows') (ht other (by simp [hother]))
    obtain ⟨answer, next, nextWhole, hown, hwhole, hinside, hlast, -⟩ :=
      ih (Located.mono hgrows' hv') hrest locals _ _ hfirst (.refl _)
    refine ⟨(), next, nextWhole, ?_, ?_, hinside, hgrows'.trans hlast, trivial⟩
    · simp only [Store.addTypes, own.addType_eq ht' hheld]
      exact hown
    · simp only [List.map_cons, Store.addTypes,
        whole.addType_eq (h.embeds.lt_types ht') hheld']
      exact hwhole

theorem Matched.propagate {source target : ValueId} (hs : Located.Within start source)
    (ht : Located.Within start target) :
    Matched shift base start (·.propagate source target)
      (·.propagate (source.move shift) (target.move shift)) (fun _ _ => True) := by
  intro locals own whole h hgrows
  obtain ⟨held, hheld⟩ := own.exists_value? (Located.mono hgrows hs)
  have hheld' := h.embeds.own_value source
  rw [hheld] at hheld'
  have htypes : Located.Within own held.types := by
    intro type htype
    exact h.sound.held source type (by rw [typesOf_eq own hheld]; exact htype)
  have hmatched : Matched shift base own (·.addTypes target held.types)
      (·.addTypes (target.move shift) (held.types.map (·.move shift))) (fun _ _ => True) :=
    Matched.addTypes (Located.mono hgrows ht) htypes
  obtain ⟨answer, next, nextWhole, hown, hwhole, hinside, hlast, -⟩ :=
    hmatched locals own whole h (.refl _)
  refine ⟨(), next, nextWhole, ?_, ?_, hinside, hlast, trivial⟩
  · simp only [Store.propagate, hheld]
    exact hown
  · simp only [Store.propagate, hheld']
    exact hwhole

theorem Matched.ensureMember {type : TypeId} (name : String)
    (ho : (start.object? type).isSome = true) :
    Matched shift base start (·.ensureMember type name)
      (·.ensureMember (type.move shift) name) (Located.Within (α := ValueId)) := by
  intro locals own whole h hgrows
  obtain ⟨object, hobject⟩ := Option.isSome_iff_exists.1 (hgrows.object type ho)
  have hobject' := h.embeds.object? type
  rw [hobject] at hobject'
  cases hm : object.members.get? name with
  | some member =>
    have hm' : (object.move shift).members.get? name = some (member.move shift) := by
      simp [ObjectType.move, hm]
    refine ⟨member, own, whole, own.ensureMember_present hobject hm,
      whole.ensureMember_present hobject' hm', h, .refl _, ?_⟩
    refine h.sound.placed (.member type name) member ?_
    simp only [place?, member?, hobject]
    exact hm
  | none =>
    have hm' : (object.move shift).members.get? name = none := by
      simp [ObjectType.move, hm]
    refine ⟨⟨own.values.size⟩, own.addMember type object name,
      whole.addMember (type.move shift) (object.move shift) name,
      own.ensureMember_absent hobject hm, ?_, ?_, Grows.addMember own name hobject, ?_⟩
    · have hsize : (⟨whole.values.size⟩ : ValueId) = (⟨own.values.size⟩ : ValueId).move shift :=
        h.embeds.newValue_fst
      have hop := whole.ensureMember_absent hobject' hm'
      rw [hsize] at hop
      refine hop.trans ?_
      rw [Store.addMember, hsize]
      rfl
    · exact ⟨h.embeds.addMember name h.sound hobject, h.sound.addMember name hobject,
        h.plain.newValue⟩
    · change own.values.size < (own.addMember type object name).values.size
      rw [values_size_addMember]
      exact Nat.lt_succ_self _

theorem Matched.setDoc {type : TypeId} (doc : String) (ho : (start.object? type).isSome = true) :
    Matched shift base start (fun store => (.ok (), store.setDoc type doc))
      (fun store => (.ok (), store.setDoc (type.move shift) doc)) (fun _ _ => True) := by
  intro locals own whole h hgrows
  obtain ⟨object, hobject⟩ := Option.isSome_iff_exists.1 (hgrows.object type ho)
  have hobject' := h.embeds.object? type
  rw [hobject] at hobject'
  have hlt := lt_of_type? (own.type?_of_object? hobject)
  refine ⟨(), own.setDoc type doc, whole.setDoc (type.move shift) doc, rfl, rfl, ?_, ?_, trivial⟩
  · refine ⟨?_, h.sound.setDoc type doc, h.plain⟩
    rw [own.setDoc_eq doc hobject, whole.setDoc_eq doc hobject']
    exact h.embeds.setType (.object { object with doc := some doc }) hlt
      (h.sound.le_of_object? hobject)
  · rw [own.setDoc_eq doc hobject]
    exact Grows.setType own _ hlt

end Types.Store

/-! ### Two runs -/

/-- When a state and one in a larger store belong together, and which store is the smaller one. -/
structure Twins (σ : Type) where
  shift : Shift
  Related : σ → σ → Prop
  store : σ → Store

namespace Twins

variable (twins : Twins σ)

/-- From related states whose smaller store has grown out of `start`, both steps answer, the
    second with moved ids; they leave related states, and the answer is as `good` says. -/
def Agree [Located α] (start : Store) (own whole : ExceptT StoreError (StateM σ) α)
    (good : Store → α → Prop) : Prop :=
  ∀ state twin, twins.Related state twin → start.Grows (twins.store state) →
    ∃ answer next nextTwin, own.run.run state = (.ok answer, next) ∧
      whole.run.run twin = (.ok (Located.move twins.shift answer), nextTwin) ∧
      twins.Related next nextTwin ∧ (twins.store state).Grows (twins.store next) ∧
      good (twins.store next) answer

variable {twins} [Located α] [Located β] {start : Store}
  {own whole : ExceptT StoreError (StateM σ) α} {good : Store → α → Prop}
  {result : Store → β → Prop}

theorem Agree.pure (answer : α) (h : ∀ next, start.Grows next → good next answer) :
    twins.Agree start (Pure.pure answer) (Pure.pure (Located.move twins.shift answer)) good :=
  fun state twin hrelated hgrows =>
    ⟨answer, state, twin, rfl, rfl, hrelated, .refl _, h _ hgrows⟩

theorem Agree.done : twins.Agree start (Pure.pure ()) (Pure.pure ()) fun _ _ => True :=
  Agree.pure () fun _ _ => trivial

theorem Agree.bind {next twinNext : α → ExceptT StoreError (StateM σ) β}
    (h : twins.Agree start own whole good)
    (hnext : ∀ later answer, start.Grows later → good later answer →
      twins.Agree later (next answer) (twinNext (Located.move twins.shift answer)) result) :
    twins.Agree start (own >>= next) (whole >>= twinNext) result := by
  intro state twin hrelated hgrows
  obtain ⟨answer, middle, middleTwin, hown, hwhole, hrelated', hgrows', hgood⟩ :=
    h state twin hrelated hgrows
  obtain ⟨last, final, finalTwin, hown', hwhole', hrelated'', hgrows'', hresult⟩ :=
    hnext (twins.store middle) answer (hgrows.trans hgrows') hgood middle middleTwin hrelated'
      (.refl _)
  refine ⟨last, final, finalTwin, ?_, ?_, hrelated'', hgrows'.trans hgrows'', hresult⟩
  · rw [run_bind_ok hown]
    exact hown'
  · rw [run_bind_ok hwhole]
    exact hwhole'

/-- What the steps after a look at the state may know about it. -/
theorem Agree.look {next twinNext : σ → ExceptT StoreError (StateM σ) β}
    (h : ∀ state twin, twins.Related state twin → start.Grows (twins.store state) →
      twins.Agree (twins.store state) (next state) (twinNext twin) result) :
    twins.Agree start (get >>= next) (get >>= twinNext) result :=
  fun state twin hrelated hgrows =>
    h state twin hrelated hgrows state twin hrelated (.refl _)

/-- Steps over a list, each of which agrees from any later store on. -/
theorem Agree.forM {ι : Type} {items : List ι}
    {each twinEach : ι → ExceptT StoreError (StateM σ) Unit}
    (h : ∀ item ∈ items, ∀ later, start.Grows later →
      twins.Agree later (each item) (twinEach item) fun _ _ => True) :
    twins.Agree start (items.forM each) (items.forM twinEach) fun _ _ => True := by
  induction items generalizing start with
  | nil => exact Agree.done
  | cons item rest ih =>
    refine Agree.bind (h item (by simp) start (.refl _)) ?_
    intro later _ hgrows _
    refine ih ?_
    intro other hother next hnext
    exact h other (by simp [hother]) next (hgrows.trans hnext)

/-- Steps over ids and over the same ids moved. -/
theorem Agree.forM_move {items : List α} {each twinEach : α → ExceptT StoreError (StateM σ) Unit}
    (h : ∀ item ∈ items, ∀ later, start.Grows later →
      twins.Agree later (each item) (twinEach (Located.move twins.shift item)) fun _ _ => True) :
    twins.Agree start (items.forM each)
      ((items.map (Located.move twins.shift)).forM twinEach) fun _ _ => True := by
  induction items generalizing start with
  | nil => exact Agree.done
  | cons item rest ih =>
    rw [List.map_cons]
    refine Agree.bind (h item (by simp) start (.refl _)) ?_
    intro later _ hgrows _
    refine ih ?_
    intro other hother next hnext
    exact h other (by simp [hother]) next (hgrows.trans hnext)

/-- The answers of steps over a list. -/
theorem Agree.mapM {ι : Type} {items : List ι}
    {each twinEach : ι → ExceptT StoreError (StateM σ) α}
    (h : ∀ item ∈ items, ∀ later, start.Grows later →
      twins.Agree later (each item) (twinEach item) Located.Within) :
    twins.Agree start (items.mapM each) (items.mapM twinEach) Located.Within := by
  induction items generalizing start with
  | nil =>
    refine Agree.pure ([] : List α) ?_
    intro next _ item hitem
    cases hitem
  | cons item rest ih =>
    simp only [List.mapM_cons]
    refine Agree.bind (h item (by simp) start (.refl _)) ?_
    intro later head hgrows hhead
    refine Agree.bind (ih ?_) ?_
    · intro other hother next hnext
      exact h other (by simp [hother]) next (hgrows.trans hnext)
    · intro last tail hlast htail
      refine Agree.pure (head :: tail) ?_
      intro next hnext other hother
      rcases List.mem_cons.1 hother with rfl | hother
      · exact Located.mono (hlast.trans hnext) hhead
      · exact Located.mono hnext (htail other hother)

end Twins

end Capabilities
