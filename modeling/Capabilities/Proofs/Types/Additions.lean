import Capabilities.Proofs.Types.Places
import Mathlib.Data.List.Induction

/-!
# Making an object type behind what is there

A store *gains* if nothing that was in it has changed. So whatever is read off the old types and
values of a sound store is read off it afterwards.

A new object type may be given its members one after the other: a member comes with a name and
perhaps with a type that it is to hold. While this is done the store only gains; in the end the
object has each named member once, in the order in which they were first named, and each holds
the types that were given with its name.
-/

namespace Capabilities.Types.Store

/-- Everything that was in a store is in it still, and it stays sound. -/
structure Gains (before after : Store) : Prop where
  types_le : before.types.size ≤ after.types.size
  values_le : before.values.size ≤ after.values.size
  type : ∀ type, type.index < before.types.size → after.type? type = before.type? type
  value : ∀ value, value.index < before.values.size → after.value? value = before.value? value
  sound : ∀ locals, before.Sound locals → after.Sound locals

variable {locals : Variables} {base store before middle after : Store} {value : ValueId}
  {type object : TypeId} {name : String}

theorem Gains.refl (store : Store) : store.Gains store :=
  ⟨Nat.le_refl _, Nat.le_refl _, fun _ _ => rfl, fun _ _ => rfl, fun _ => id⟩

theorem Gains.trans (h : before.Gains middle) (h' : middle.Gains after) : before.Gains after := by
  refine ⟨Nat.le_trans h.types_le h'.types_le, Nat.le_trans h.values_le h'.values_le, ?_, ?_,
    fun locals hsound => h'.sound locals (h.sound locals hsound)⟩
  · intro type hlt
    rw [h'.type type (Nat.lt_of_lt_of_le hlt h.types_le), h.type type hlt]
  · intro value hlt
    rw [h'.value value (Nat.lt_of_lt_of_le hlt h.values_le), h.value value hlt]

/-! ### Reading what was there -/

theorem Gains.object? (h : before.Gains after) (hlt : object.index < before.types.size) :
    after.object? object = before.object? object := by
  unfold Store.object?
  rw [h.type object hlt]

theorem Gains.member? (h : before.Gains after) (hlt : object.index < before.types.size)
    (name : String) : after.member? object name = before.member? object name := by
  unfold Store.member?
  rw [h.object? hlt]

theorem Gains.typesOf (h : before.Gains after) (hlt : value.index < before.values.size) :
    after.typesOf value = before.typesOf value :=
  typesOf_of_value?_eq (h.value value hlt)

theorem Gains.firstType? (h : before.Gains after) (hlt : value.index < before.values.size) :
    after.firstType? value = before.firstType? value := by
  unfold Store.firstType?
  rw [h.typesOf hlt]

theorem Sound.lt_of_member? (h : store.Sound locals)
    (hmember : store.member? object name = some value) :
    value.index < store.values.size :=
  h.placed (.member object name) value hmember

theorem Gains.memberType? (h : before.Gains after) (hsound : before.Sound locals)
    (hlt : object.index < before.types.size) (name : String) :
    after.memberType? object name = before.memberType? object name := by
  unfold Store.memberType?
  rw [h.member? hlt]
  cases hmember : before.member? object name with
  | none => rfl
  | some value => exact h.firstType? (hsound.lt_of_member? hmember)

/-! ### Writing to what is new -/

theorem Gains.newObject (store : Store) (name origin : Option String) :
    store.Gains (store.newObject name origin).2 := by
  refine ⟨?_, Nat.le_refl _, fun _ hlt => type?_pushType_of_lt hlt, fun _ _ => rfl,
    fun _ hsound => hsound.newObject name origin⟩
  unfold Store.newObject
  rw [types_size_pushType]
  exact Nat.le_succ _

theorem Gains.withType (h : base.Gains store) (hnew : base.values.size ≤ value.index)
    (htype : type.index < store.types.size) :
    base.Gains (store.modifyValue value (withType type)) := by
  refine ⟨h.types_le, ?_, h.type, ?_, fun locals hsound => (h.sound locals hsound).withType htype⟩
  · rw [values_size_modifyValue]
    exact h.values_le
  · intro other hother
    rw [value?_modifyValue, if_neg]
    · exact h.value other hother
    · rintro rfl
      exact Nat.not_lt.2 hnew hother

theorem member?_addMember {found : ObjectType} (h : store.object? object = some found)
    (name other : String) :
    (store.addMember object found name).member? object other =
      if other = name then some ⟨store.values.size⟩ else store.member? object other := by
  have hobject := type?_addMember name h object
  rw [if_pos rfl] at hobject
  unfold Store.member?
  rw [object?_eq_some _ hobject, h]
  exact Keyed.get?_put ..

theorem Gains.addMember {found : ObjectType} (h : base.Gains store)
    (hnew : base.types.size ≤ object.index) (hobject : store.object? object = some found)
    (name : String) : base.Gains (store.addMember object found name) := by
  refine ⟨?_, ?_, ?_, ?_, fun locals hsound => (h.sound locals hsound).addMember name hobject⟩
  · rw [types_size_addMember]
    exact h.types_le
  · rw [values_size_addMember]
    exact Nat.le_succ_of_le h.values_le
  · intro other hother
    rw [type?_addMember name hobject, if_neg]
    · exact h.type other hother
    · rintro rfl
      exact Nat.not_lt.2 hnew hother
  · intro other hother
    have hold := Nat.lt_of_lt_of_le hother h.values_le
    rw [value?_addMember, value?_newValue, if_neg (Nat.ne_of_lt hold)]
    exact h.value other hother

theorem Gains.setDoc (h : base.Gains store) (hnew : base.types.size ≤ type.index) (doc : String) :
    base.Gains (store.setDoc type doc) := by
  refine ⟨?_, h.values_le, ?_, h.value,
    fun locals hsound => (h.sound locals hsound).setDoc type doc⟩
  · rw [types_size_setDoc]
    exact h.types_le
  · intro other hother
    rw [type?_setDoc, if_neg]
    · exact h.type other hother
    · rintro rfl
      exact Nat.not_lt.2 hnew hother

/-! ### The members of a new object -/

def given (members : List (String × Option TypeId)) (name : String) : List TypeId :=
  (members.filterMap fun member => if member.1 = name then member.2 else none).eraseDups

/-- An object type is made of the given members: it has each name once, in order, and each member
    holds the types that are given with its name. -/
def Consists (store : Store) (object : TypeId) (members : List (String × Option TypeId))
    (doc origin : Option String) : Prop :=
  ∃ found : Keyed ValueId, store.object? object = some ⟨none, found, doc, origin⟩ ∧
    found.keys = (members.map Prod.fst).eraseDups ∧
    ∀ name value, found.get? name = some value → store.typesOf value = given members name

variable {members : List (String × Option TypeId)} {doc origin : Option String}

theorem eraseDups_concat {α : Type} [BEq α] [LawfulBEq α] (items : List α) (item : α) :
    (items ++ [item]).eraseDups = insertNew items.eraseDups item := by
  rw [List.eraseDups_append]
  unfold insertNew
  by_cases h : item ∈ items
  · have hmem : items.eraseDups.contains item = true := by simpa using h
    rw [if_pos hmem]
    simp [List.removeAll, h]
  · have hmem : ¬items.eraseDups.contains item = true := by simpa using h
    rw [if_neg hmem]
    simp [List.removeAll, h, List.eraseDups_cons]

theorem given_concat (members : List (String × Option TypeId)) (key name : String)
    (type : Option TypeId) :
    given (members ++ [(key, type)]) name =
      if key = name then type.elim (given members name) (insertNew (given members name))
      else given members name := by
  unfold given
  rw [List.filterMap_append]
  by_cases hname : key = name
  · cases type with
    | none => simp [hname]
    | some type =>
      simp only [hname, if_true, List.filterMap_cons, List.filterMap_nil, Option.elim_some]
      exact eraseDups_concat _ _
  · simp [hname]

theorem given_of_not_mem (h : name ∉ members.map Prod.fst) : given members name = [] := by
  have hnone :
      (members.filterMap fun member => if member.1 = name then member.2 else none) = [] := by
    rw [List.filterMap_eq_nil_iff]
    intro member hmember
    rw [if_neg]
    rintro rfl
    exact h (List.mem_map_of_mem hmember)
  unfold given
  rw [hnone]
  rfl

/-- Where each name goes with one type, this is what is given with it. -/
theorem given_map (names : List String) (read : String → Option TypeId) (name : String) :
    given (names.map fun name => (name, read name)) name =
      if name ∈ names then (read name).toList else [] := by
  induction names using List.reverseRecOn with
  | nil => rfl
  | append_singleton names last ih =>
    rw [List.map_append, List.map_singleton, given_concat, ih]
    by_cases hlast : last = name
    · subst hlast
      have hmem : last ∈ names ++ [last] := List.mem_append_right _ List.mem_cons_self
      rw [if_pos rfl, if_pos hmem]
      cases read last with
      | none => exact ite_self []
      | some type => split <;> simp [insertNew]
    · simp [hlast, Ne.symm hlast]

/-- What an object is made of stays when the store gains. -/
theorem Consists.mono (h : before.Consists object members doc origin)
    (hsound : before.Sound locals) (hgains : before.Gains after) :
    after.Consists object members doc origin := by
  obtain ⟨found, hfound, hkeys, htypes⟩ := h
  have hlt := lt_of_type? (before.type?_of_object? hfound)
  refine ⟨found, (hgains.object? hlt).trans hfound, hkeys, ?_⟩
  intro name value hvalue
  have hmember : before.member? object name = some value := by
    unfold Store.member?
    rw [hfound]
    exact hvalue
  rw [hgains.typesOf (hsound.lt_of_member? hmember)]
  exact htypes name value hvalue

theorem Consists.setDoc (h : store.Consists object members none origin) (doc : String) :
    (store.setDoc object doc).Consists object members (some doc) origin := by
  obtain ⟨found, hfound, hkeys, htypes⟩ := h
  refine ⟨found, ?_, hkeys, htypes⟩
  rw [store.setDoc_eq doc hfound]
  refine object?_eq_some _ ?_
  rw [type?_setType _ _ _ _ (lt_of_type? (store.type?_of_object? hfound)), if_pos rfl]

/-- An object type behind `base` that is being made: it is the one type that has come, and it is
    made of `members` so far. -/
structure Filling (origin : Option String) (base store : Store)
    (members : List (String × Option TypeId)) : Prop where
  gains : base.Gains store
  types_size : store.types.size = base.types.size + 1
  consists : store.Consists ⟨base.types.size⟩ members none origin
  fresh : ∀ name value, store.member? ⟨base.types.size⟩ name = some value →
    base.values.size ≤ value.index

theorem Filling.newObject (base : Store) (origin : Option String) :
    Filling origin base (base.newObject none origin).2 [] := by
  have hobject : (base.newObject none origin).2.object? ⟨base.types.size⟩ =
      some ⟨none, .empty, none, origin⟩ := by
    refine object?_eq_some _ ?_
    change (base.pushType _).2.type? _ = _
    rw [type?_pushType, if_pos rfl]
  refine ⟨.newObject base none origin, types_size_pushType _, ?_, ?_⟩
  · exact ⟨.empty, hobject, rfl, fun name value hvalue => by cases hvalue⟩
  · intro name value hvalue
    unfold Store.member? at hvalue
    rw [hobject] at hvalue
    cases hvalue

/-- A member is added if it is not there yet. It is not given a type by that. -/
theorem Filling.ensureMember (h : Filling origin base store members) (name : String) :
    ∃ value next, store.ensureMember ⟨base.types.size⟩ name = (.ok value, next) ∧
      next.member? ⟨base.types.size⟩ name = some value ∧
      Filling origin base next (members ++ [(name, none)]) := by
  obtain ⟨found, hfound, hkeys, htypes⟩ := h.consists
  have hgiven : ∀ other, given (members ++ [(name, none)]) other = given members other := by
    intro other
    rw [given_concat]
    split <;> rfl
  have hnames : ((members ++ [(name, none)]).map Prod.fst).eraseDups =
      insertNew found.keys name := by
    rw [List.map_append, List.map_singleton, eraseDups_concat, hkeys]
  cases hname : found.get? name with
  | some value =>
    have hmem : name ∈ found.keys := (found.mem_keys_iff name).2 (by rw [hname]; rfl)
    refine ⟨value, store, store.ensureMember_present hfound hname, ?_, h.gains, h.types_size,
      ⟨found, hfound, ?_, ?_⟩, h.fresh⟩
    · unfold Store.member?
      rw [hfound]
      exact hname
    · rw [hnames, insertNew_of_mem hmem]
    · intro other value hvalue
      rw [hgiven]
      exact htypes other value hvalue
  | none =>
    have habsent : name ∉ found.keys := by
      rw [found.mem_keys_iff, hname]
      exact Bool.false_ne_true
    have hobject := type?_addMember name hfound ⟨base.types.size⟩
    rw [if_pos rfl] at hobject
    refine ⟨⟨store.values.size⟩, store.addMember ⟨base.types.size⟩ _ name,
      store.ensureMember_absent hfound hname,
      (member?_addMember hfound name name).trans (if_pos rfl),
      h.gains.addMember (Nat.le_refl _) hfound name, ?_, ⟨_, object?_eq_some _ hobject, ?_, ?_⟩, ?_⟩
    · rw [types_size_addMember]
      exact h.types_size
    · rw [hnames, Keyed.keys_put, if_neg habsent]
      unfold insertNew
      rw [if_neg (by simpa using habsent)]
    · intro other value hvalue
      rw [hgiven, typesOf_addMember]
      rw [Keyed.get?_put] at hvalue
      split at hvalue
      · rename_i hsame
        cases hvalue
        have hnil : given members name = [] := by
          refine given_of_not_mem fun hmem => habsent ?_
          rw [hkeys]
          exact List.mem_eraseDups.2 hmem
        rw [hsame, hnil]
        simp [Store.typesOf, value?]
      · exact htypes other value hvalue
    · intro other value hvalue
      rw [member?_addMember hfound] at hvalue
      split at hvalue
      · cases hvalue
        exact h.gains.values_le
      · exact h.fresh other value hvalue

/-- A member that was named last is given its type. No other member has its value. -/
theorem Filling.addType (h : Filling origin base store (members ++ [(name, none)]))
    (hbase : base.Sound locals) (hmember : store.member? ⟨base.types.size⟩ name = some value)
    (htype : type.index < base.types.size) :
    ∃ added, store.addType value type = (.ok added, store.modifyValue value (withType type)) ∧
      Filling origin base (store.modifyValue value (withType type))
        (members ++ [(name, some type)]) := by
  have hsound := h.gains.sound locals hbase
  obtain ⟨held, hheld⟩ := store.exists_value? (hsound.lt_of_member? hmember)
  have hlt := Nat.lt_of_lt_of_le htype h.gains.types_le
  obtain ⟨found, hfound, hkeys, htypes⟩ := h.consists
  have hget : ∀ other value, found.get? other = some value →
      store.member? ⟨base.types.size⟩ other = some value := by
    intro other value hvalue
    unfold Store.member?
    rw [hfound]
    exact hvalue
  refine ⟨_, store.addType_eq hlt hheld, h.gains.withType (h.fresh name value hmember) hlt,
    h.types_size, ⟨found, hfound, ?_, ?_⟩, h.fresh⟩
  · rw [hkeys]
    simp
  · intro other owned howned
    have hformer := htypes other owned howned
    rw [given_concat] at hformer ⊢
    by_cases hsame : name = other
    · subst hsame
      have heq : owned = value := Option.some.inj ((hget name owned howned).symm.trans hmember)
      subst heq
      rw [if_pos rfl] at hformer ⊢
      rw [typesOf_modifyValue_self hheld]
      rw [typesOf_eq _ hheld] at hformer
      change insertNew held.types type = _
      rw [hformer]
      rfl
    · rw [if_neg hsame] at hformer ⊢
      rw [typesOf_modifyValue_of_ne]
      · exact hformer
      · rintro rfl
        have heq := hsound.distinct (.member ⟨base.types.size⟩ name)
          (.member ⟨base.types.size⟩ other) owned hmember (hget other owned howned)
        cases heq
        exact hsame rfl

end Capabilities.Types.Store
