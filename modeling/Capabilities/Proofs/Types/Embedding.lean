import Capabilities.Proofs.Types.Places

/-!
# A store inside a larger one

What a run adds to a store does not depend on what the store held before, up to the ids: the
types and values of its own are shifted behind those that were there. `Embeds shift base own
whole` says that `whole` holds `base` unchanged and behind it `own`, with every id moved by
`shift`; the three primitives are common to all stores and stay in place.

Every operation on `own` is matched by the same operation on `whole` with moved ids.
-/

namespace Capabilities.Types

/-! ### Moving ids -/

/-- Where the first type and the first value of a store's own come to lie in a larger one. -/
structure Shift where
  types : Nat
  values : Nat
  primitives_le : 3 ≤ types

variable (shift : Shift)

/-- The id of a type in the larger store. A primitive keeps its id. -/
def TypeId.move (type : TypeId) : TypeId :=
  if type.index < 3 then type else ⟨type.index - 3 + shift.types⟩

/-- The id of a value in the larger store. -/
def ValueId.move (value : ValueId) : ValueId := ⟨value.index + shift.values⟩

def ObjectType.move (object : ObjectType) : ObjectType :=
  { object with members := object.members.map (·.move shift) }

def FunctionType.move (function : FunctionType) : FunctionType :=
  { function with result := function.result.move shift }

def TypeShape.move : TypeShape → TypeShape
  | .object type => .object (type.move shift)
  | .function type => .function (type.move shift)
  | .primitive kind => .primitive kind

def AbstractValue.move (held : AbstractValue) : AbstractValue :=
  ⟨held.types.map (·.move shift), held.members.map (·.move shift), held.enumeration⟩

def Place.move : Place → Place
  | .ofVariable of => .ofVariable of
  | .member object name => .member (object.move shift) name
  | .result function => .result (function.move shift)
  | .property value name => .property (value.move shift) name

theorem TypeId.move_injective {first second : TypeId}
    (h : first.move shift = second.move shift) : first = second := by
  obtain ⟨i⟩ := first
  obtain ⟨j⟩ := second
  have hle := shift.primitives_le
  simp only [TypeId.move] at h
  split at h <;> split at h <;> simp only [TypeId.mk.injEq] at h ⊢ <;> omega

theorem ValueId.move_injective {first second : ValueId}
    (h : first.move shift = second.move shift) : first = second := by
  obtain ⟨i⟩ := first
  obtain ⟨j⟩ := second
  simp only [ValueId.move, ValueId.mk.injEq] at h ⊢
  omega

theorem ValueId.le_move (value : ValueId) : shift.values ≤ (value.move shift).index :=
  Nat.le_add_left _ _

theorem TypeId.move_of_lt {type : TypeId} (h : type.index < 3) : type.move shift = type :=
  if_pos h

theorem TypeId.le_move {type : TypeId} (h : 3 ≤ type.index) :
    shift.types ≤ (type.move shift).index := by
  rw [TypeId.move, if_neg (Nat.not_lt.2 h)]
  exact Nat.le_add_left _ _

@[simp] theorem TypeId.move_primitive (kind : Primitive) :
    (Store.primitive kind).move shift = Store.primitive kind := by
  cases kind <;> rfl

/-- An id behind the base is the moved id of a type. -/
theorem TypeId.exists_move {type : TypeId} (h : type.index < 3 ∨ shift.types ≤ type.index) :
    ∃ own : TypeId, own.move shift = type := by
  obtain ⟨index⟩ := type
  rcases h with h | h
  · exact ⟨⟨index⟩, TypeId.move_of_lt shift h⟩
  · refine ⟨⟨index - shift.types + 3⟩, ?_⟩
    simp only at h
    rw [TypeId.move, if_neg (by simp only; omega), TypeId.mk.injEq]
    simp only
    omega

theorem ValueId.exists_move {value : ValueId} (h : shift.values ≤ value.index) :
    ∃ own : ValueId, own.move shift = value := by
  obtain ⟨index⟩ := value
  refine ⟨⟨index - shift.values⟩, ?_⟩
  simp only at h
  simp only [ValueId.move, ValueId.mk.injEq]
  omega

theorem TypeId.contains_move (items : List TypeId) (item : TypeId) :
    (items.map (·.move shift)).contains (item.move shift) = items.contains item := by
  induction items with
  | nil => rfl
  | cons other rest ih =>
    have hbeq : (item.move shift == other.move shift) = (item == other) := by
      by_cases h : item = other
      · simp [h]
      · have hmove : item.move shift ≠ other.move shift :=
          fun heq => h (TypeId.move_injective shift heq)
        rw [beq_eq_false_iff_ne.2 h, beq_eq_false_iff_ne.2 hmove]
    simp only [List.map_cons, List.contains_cons, hbeq, ih]

theorem Store.insertNew_map (items : List TypeId) (item : TypeId) :
    Store.insertNew (items.map (·.move shift)) (item.move shift) =
      (Store.insertNew items item).map (·.move shift) := by
  unfold Store.insertNew
  rw [TypeId.contains_move]
  split <;> simp

theorem Store.foldl_insertNew_map (items found : List TypeId) :
    (items.map (·.move shift)).foldl Store.insertNew (found.map (·.move shift)) =
      (items.foldl Store.insertNew found).map (·.move shift) := by
  induction items generalizing found with
  | nil => rfl
  | cons item rest ih =>
    simp only [List.map_cons, List.foldl_cons, Store.insertNew_map]
    exact ih _

/-! ### Embeddings -/

/-- `whole` is `base` with `own`, moved, behind it. -/
structure Store.Embeds (base own whole : Store) : Prop where
  base_types : base.types.size = shift.types
  base_values : base.values.size = shift.values
  types_size : whole.types.size + 3 = shift.types + own.types.size
  values_size : whole.values.size = shift.values + own.values.size
  old_type : ∀ type, type.index < base.types.size → whole.type? type = base.type? type
  old_value : ∀ value, value.index < base.values.size → whole.value? value = base.value? value
  own_type : ∀ type, whole.type? (type.move shift) = (own.type? type).map (·.move shift)
  own_value : ∀ value, whole.value? (value.move shift) = (own.value? value).map (·.move shift)

namespace Store

variable {shift} {base own whole : Store} {locals : Variables}

/-- The shift that puts a store's own behind what is there. -/
def HasPrimitives.frontier {store : Store} (h : store.HasPrimitives) : Shift :=
  ⟨store.types.size, store.values.size, h.le_size⟩

@[inherit_doc HasPrimitives.frontier]
def Sound.frontier {store : Store} (h : store.Sound locals) : Shift :=
  ⟨store.types.size, store.values.size, h.primitives_le⟩

/-- Every store with the primitives has the initial one embedded behind itself. -/
theorem HasPrimitives.embeds_initial (h : base.HasPrimitives) :
    Embeds h.frontier base .initial base := by
  have hle := h.le_size
  refine ⟨rfl, rfl, rfl, rfl, fun _ _ => rfl, fun _ _ => rfl, ?_, ?_⟩
  · intro type
    obtain ⟨index⟩ := type
    by_cases hlt : index < 3
    · rw [TypeId.move_of_lt _ hlt]
      have hcases : index = 0 ∨ index = 1 ∨ index = 2 := by omega
      rcases hcases with rfl | rfl | rfl
      · exact h .number
      · exact h .string
      · exact h .bool
    · have hnone : Store.initial.type? ⟨index⟩ = none := by
        simp [type?, Store.initial]
        omega
      rw [hnone]
      simp only [type?, TypeId.move, HasPrimitives.frontier, if_neg hlt, Option.map_none]
      exact Array.getElem?_eq_none (Nat.le_add_left _ _)
  · intro value
    have hnone : Store.initial.value? value = none := by
      simp [value?, Store.initial]
    rw [hnone]
    exact Array.getElem?_eq_none (Nat.le_add_left _ _)

/-- `base` with all that `own` holds besides the primitives, moved, behind it. -/
def followedBy (shift : Shift) (base own : Store) : Store :=
  ⟨base.types ++ (own.types.extract 3).map (·.move shift),
    base.values ++ own.values.map (·.move shift)⟩

/-- An embedding leaves no choice: it says what the larger store is. -/
theorem Embeds.eq_followedBy (h : Embeds shift base own whole) (hown : own.HasPrimitives) :
    whole = followedBy shift base own := by
  have hle := hown.le_size
  have htypes := h.base_types
  have hvalues := h.base_values
  have hsize := h.types_size
  have hcount := h.values_size
  have htypesEq : whole.types = base.types ++ (own.types.extract 3).map (·.move shift) := by
    apply Array.ext_getElem?
    intro index
    rcases Nat.lt_or_ge index base.types.size with hlt | hge
    · rw [Array.getElem?_append_left hlt]
      exact h.old_type ⟨index⟩ hlt
    · have hindex : (⟨3 + (index - base.types.size)⟩ : TypeId).move shift = ⟨index⟩ := by
        rw [TypeId.move, if_neg (by simp only; omega), TypeId.mk.injEq]
        simp only
        omega
      have hmoved := h.own_type ⟨3 + (index - base.types.size)⟩
      rw [hindex] at hmoved
      have hextract : (own.types.extract 3)[index - base.types.size]? =
          own.types[3 + (index - base.types.size)]? := by
        rw [Array.getElem?_extract]
        split
        · rfl
        · exact (Array.getElem?_eq_none (by omega)).symm
      rw [Array.getElem?_append_right hge, Array.getElem?_map, hextract]
      exact hmoved
  have hvaluesEq : whole.values = base.values ++ own.values.map (·.move shift) := by
    apply Array.ext_getElem?
    intro index
    rcases Nat.lt_or_ge index base.values.size with hlt | hge
    · rw [Array.getElem?_append_left hlt]
      exact h.old_value ⟨index⟩ hlt
    · have hindex : (⟨index - base.values.size⟩ : ValueId).move shift = ⟨index⟩ := by
        rw [ValueId.move, ValueId.mk.injEq]
        simp only
        omega
      have hmoved := h.own_value ⟨index - base.values.size⟩
      rw [hindex] at hmoved
      rw [Array.getElem?_append_right hge, Array.getElem?_map]
      exact hmoved
  obtain ⟨types, values⟩ := whole
  simp only at htypesEq hvaluesEq
  rw [htypesEq, hvaluesEq]
  rfl

/-! ### Reading through an embedding -/

theorem Embeds.object? (h : Embeds shift base own whole) (type : TypeId) :
    whole.object? (type.move shift) = (own.object? type).map (·.move shift) := by
  unfold Store.object?
  rw [h.own_type]
  cases own.type? type with
  | none => rfl
  | some shape => cases shape <;> rfl

theorem Embeds.result? (h : Embeds shift base own whole) (type : TypeId) :
    whole.result? (type.move shift) = (own.result? type).map (·.move shift) := by
  unfold Store.result?
  rw [h.own_type]
  cases own.type? type with
  | none => rfl
  | some shape => cases shape <;> rfl

theorem Embeds.typesOf (h : Embeds shift base own whole) (value : ValueId) :
    whole.typesOf (value.move shift) = (own.typesOf value).map (·.move shift) := by
  unfold Store.typesOf
  rw [h.own_value]
  cases own.value? value <;> rfl

theorem Embeds.firstType? (h : Embeds shift base own whole) (value : ValueId) :
    whole.firstType? (value.move shift) = (own.firstType? value).map (·.move shift) := by
  unfold Store.firstType?
  rw [h.typesOf, List.head?_map]

theorem Embeds.member? (h : Embeds shift base own whole) (type : TypeId) (name : String) :
    whole.member? (type.move shift) name = (own.member? type name).map (·.move shift) := by
  unfold Store.member?
  rw [h.object?]
  cases own.object? type with
  | none => rfl
  | some object => simp [ObjectType.move]

theorem Embeds.memberType? (h : Embeds shift base own whole) (type : TypeId) (name : String) :
    whole.memberType? (type.move shift) name =
      (own.memberType? type name).map (·.move shift) := by
  unfold Store.memberType?
  rw [h.member?]
  cases own.member? type name with
  | none => rfl
  | some member => simp [h.firstType?]

theorem Embeds.doc? (h : Embeds shift base own whole) (type : TypeId) :
    whole.doc? (type.move shift) = own.doc? type := by
  unfold Store.doc?
  rw [h.own_type]
  cases own.type? type with
  | none => rfl
  | some shape => cases shape <;> rfl

theorem Embeds.lookupMember (h : Embeds shift base own whole) (value : ValueId) (name : String) :
    whole.lookupMember (value.move shift) name =
      (own.lookupMember value name).map (·.move shift) := by
  unfold Store.lookupMember
  rw [h.own_value]
  cases own.value? value with
  | none => rfl
  | some held =>
    have hown : (((held.move shift).members.get? name).map whole.typesOf).getD [] =
        (((held.members.get? name).map own.typesOf).getD []).map (·.move shift) := by
      simp only [AbstractValue.move, Keyed.get?_map]
      cases held.members.get? name with
      | none => rfl
      | some member => simp [h.typesOf]
    have hheld : ((held.move shift).types.flatMap fun type =>
          ((whole.member? type name).map whole.typesOf).getD []) =
        (held.types.flatMap fun type =>
          ((own.member? type name).map own.typesOf).getD []).map (·.move shift) := by
      simp only [AbstractValue.move, List.flatMap_map, List.map_flatMap]
      congr 1
      funext type
      rw [h.member?]
      cases own.member? type name with
      | none => rfl
      | some member => simp [h.typesOf]
    simp only [Option.map_some, hown, hheld, ← List.map_append]
    exact foldl_insertNew_map shift _ []

/-! ### The larger store -/

theorem Embeds.types_le (h : Embeds shift base own whole) (hown : own.Sound locals) :
    base.types.size ≤ whole.types.size := by
  have hle := hown.primitives_le
  have hsize := h.types_size
  rw [h.base_types]
  omega

theorem Embeds.values_le (h : Embeds shift base own whole) :
    base.values.size ≤ whole.values.size := by
  rw [h.base_values, h.values_size]
  exact Nat.le_add_right _ _

/-- The id of a type in a store is moved to one of a type in the larger store. -/
theorem Embeds.lt_types (h : Embeds shift base own whole) {type : TypeId}
    (ht : type.index < own.types.size) : (type.move shift).index < whole.types.size := by
  obtain ⟨shape, hshape⟩ := own.exists_type? ht
  have hmoved := h.own_type type
  rw [hshape] at hmoved
  exact lt_of_type? hmoved

theorem Embeds.lt_values (h : Embeds shift base own whole) {value : ValueId}
    (hv : value.index < own.values.size) : (value.move shift).index < whole.values.size := by
  have hsize := h.values_size
  simp only [ValueId.move]
  omega

/-- A place of the larger store is one of the base, or one of the other store's own. -/
theorem Embeds.place? {old new all : Variables} (h : Embeds shift base own whole)
    (hall : ∀ of value, all of = some value →
      old of = some value ∨ ∃ inner, new of = some inner ∧ value = inner.move shift)
    {place : Place} {value : ValueId} (hplace : whole.place? all place = some value) :
    base.place? old place = some value ∨
      ∃ inner ownPlace, own.place? new ownPlace = some inner ∧ place = ownPlace.move shift ∧
        value = inner.move shift := by
  have htype : ∀ type : TypeId, type.index < base.types.size ∨
      ∃ inner : TypeId, inner.move shift = type := by
    intro type
    by_cases hlt : type.index < base.types.size
    · exact Or.inl hlt
    · rw [h.base_types] at hlt
      exact Or.inr (TypeId.exists_move shift (Or.inr (Nat.not_lt.1 hlt)))
  cases place with
  | ofVariable of =>
    rcases hall of value hplace with hold | ⟨inner, hnew, rfl⟩
    · exact Or.inl hold
    · exact Or.inr ⟨inner, .ofVariable of, hnew, rfl, rfl⟩
  | member object name =>
    rcases htype object with hlt | ⟨inner, rfl⟩
    · left
      have heq : whole.member? object name = base.member? object name := by
        simp only [Store.member?, Store.object?, h.old_type object hlt]
      exact heq.symm.trans hplace
    · right
      have hmember : (own.member? inner name).map (·.move shift) = some value :=
        (h.member? inner name).symm.trans hplace
      obtain ⟨member, hown, rfl⟩ := Option.map_eq_some_iff.1 hmember
      exact ⟨member, .member inner name, hown, rfl, rfl⟩
  | result function =>
    rcases htype function with hlt | ⟨inner, rfl⟩
    · left
      have heq : whole.result? function = base.result? function := by
        simp only [Store.result?, h.old_type function hlt]
      exact heq.symm.trans hplace
    · right
      have hresult : (own.result? inner).map (·.move shift) = some value :=
        (h.result? inner).symm.trans hplace
      obtain ⟨result, hown, rfl⟩ := Option.map_eq_some_iff.1 hresult
      exact ⟨result, .result inner, hown, rfl, rfl⟩
  | property owner name =>
    by_cases hlt : owner.index < base.values.size
    · left
      simp only [Store.place?, h.old_value owner hlt] at hplace
      exact hplace
    · right
      rw [h.base_values] at hlt
      obtain ⟨inner, rfl⟩ := ValueId.exists_move shift (Nat.not_lt.1 hlt)
      simp only [Store.place?, h.own_value] at hplace
      cases hheld : own.value? inner with
      | none => simp [hheld] at hplace
      | some held =>
        simp only [hheld, Option.map_some, Option.bind_some, AbstractValue.move,
          Keyed.get?_map] at hplace
        obtain ⟨property, hown, rfl⟩ := Option.map_eq_some_iff.1 hplace
        refine ⟨property, .property inner name, ?_, rfl, rfl⟩
        simp only [Store.place?, hheld]
        exact hown

/-- The larger store is sound if the two in it are. -/
theorem Embeds.sound {old new all : Variables} (h : Embeds shift base own whole)
    (hbase : base.Sound old) (hown : own.Sound new)
    (hall : ∀ of value, all of = some value →
      old of = some value ∨ ∃ inner, new of = some inner ∧ value = inner.move shift) :
    whole.Sound all := by
  have hold : ∀ place value, base.place? old place = some value → value.index < shift.values := by
    intro place value hplace
    rw [← h.base_values]
    exact hbase.placed place value hplace
  refine ⟨?_, ?_, ?_, ?_⟩
  · intro kind
    rw [h.old_type _ (lt_of_type? (hbase.primitive kind))]
    exact hbase.primitive kind
  · intro value type ht
    by_cases hlt : value.index < base.values.size
    · have heq : whole.typesOf value = base.typesOf value :=
        typesOf_of_value?_eq (h.old_value value hlt)
      rw [heq] at ht
      exact Nat.lt_of_lt_of_le (hbase.held value type ht) (h.types_le hown)
    · rw [h.base_values] at hlt
      obtain ⟨inner, rfl⟩ := ValueId.exists_move shift (Nat.not_lt.1 hlt)
      rw [h.typesOf] at ht
      obtain ⟨innerType, hinner, rfl⟩ := List.mem_map.1 ht
      exact h.lt_types (hown.held inner innerType hinner)
  · intro place value hplace
    rcases h.place? hall hplace with hbefore | ⟨inner, ownPlace, hinner, -, rfl⟩
    · exact Nat.lt_of_lt_of_le (hbase.placed place value hbefore) h.values_le
    · exact h.lt_values (hown.placed ownPlace inner hinner)
  · intro first second value hfirst hsecond
    rcases h.place? hall hfirst with hf | ⟨firstInner, firstPlace, hf, rfl, rfl⟩
    · rcases h.place? hall hsecond with hs | ⟨secondInner, secondPlace, -, -, rfl⟩
      · exact hbase.distinct first second value hf hs
      · exact absurd (ValueId.le_move shift secondInner) (Nat.not_le.2 (hold first _ hf))
    · rcases h.place? hall hsecond with hs | ⟨secondInner, secondPlace, hs, rfl, heq⟩
      · exact absurd (ValueId.le_move shift firstInner) (Nat.not_le.2 (hold second _ hs))
      · cases ValueId.move_injective shift heq
        rw [hown.distinct firstPlace secondPlace firstInner hf hs]

/-! ### Operations through an embedding -/

theorem Embeds.newValue_fst (h : Embeds shift base own whole) :
    whole.newValue.1 = own.newValue.1.move shift := by
  simp only [newValue, ValueId.move, ValueId.mk.injEq, h.values_size]
  exact Nat.add_comm _ _

theorem Embeds.newValue (h : Embeds shift base own whole) :
    Embeds shift base own.newValue.2 whole.newValue.2 := by
  refine ⟨h.base_types, h.base_values, h.types_size, ?_, h.old_type, ?_, h.own_type, ?_⟩
  · rw [values_size_newValue, values_size_newValue, h.values_size]
    rfl
  · intro value hlt
    rw [value?_newValue, if_neg, h.old_value value hlt]
    rw [h.values_size, ← h.base_values]
    exact Nat.ne_of_lt (Nat.lt_add_right _ hlt)
  · intro value
    rw [value?_newValue, value?_newValue, h.values_size]
    by_cases hv : value.index = own.values.size
    · rw [if_pos hv, if_pos (by rw [ValueId.move, hv, Nat.add_comm])]
      rfl
    · rw [if_neg hv, if_neg (by simp only [ValueId.move]; omega), h.own_value]

theorem Embeds.pushType_fst (h : Embeds shift base own whole) (hown : own.Sound locals)
    (shape : TypeShape) :
    (whole.pushType (shape.move shift)).1 = (own.pushType shape).1.move shift := by
  have hle := hown.primitives_le
  have hsize := h.types_size
  have hmove : (⟨own.types.size⟩ : TypeId).move shift = ⟨own.types.size - 3 + shift.types⟩ :=
    if_neg (Nat.not_lt.2 hle)
  change (⟨whole.types.size⟩ : TypeId) = (⟨own.types.size⟩ : TypeId).move shift
  rw [hmove, TypeId.mk.injEq]
  omega

theorem Embeds.pushType (h : Embeds shift base own whole) (hown : own.Sound locals)
    (shape : TypeShape) :
    Embeds shift base (own.pushType shape).2 (whole.pushType (shape.move shift)).2 := by
  have hle := hown.primitives_le
  have hsize := h.types_size
  refine ⟨h.base_types, h.base_values, ?_, h.values_size, ?_, h.old_value, ?_, h.own_value⟩
  · rw [types_size_pushType, types_size_pushType]
    omega
  · intro type hlt
    have hbase := h.base_types
    rw [type?_pushType, if_neg (by omega), h.old_type type hlt]
  · intro type
    rw [type?_pushType, type?_pushType]
    by_cases ht : type.index = own.types.size
    · rw [if_pos ht, if_pos]
      · rfl
      · rw [TypeId.move, if_neg (by omega)]
        simp only
        omega
    · rw [if_neg ht, if_neg, h.own_type]
      obtain ⟨index⟩ := type
      simp only at ht
      have hshift := shift.primitives_le
      simp only [TypeId.move]
      split <;> simp only <;> omega

theorem Embeds.modifyValue {value : ValueId} {change moved : AbstractValue → AbstractValue}
    (h : Embeds shift base own whole)
    (hchange : ∀ held, moved (held.move shift) = (change held).move shift) :
    Embeds shift base (own.modifyValue value change)
      (whole.modifyValue (value.move shift) moved) := by
  refine ⟨h.base_types, h.base_values, h.types_size, ?_, h.old_type, ?_, h.own_type, ?_⟩
  · rw [values_size_modifyValue, values_size_modifyValue, h.values_size]
  · intro other hlt
    rw [value?_modifyValue, if_neg, h.old_value other hlt]
    rintro rfl
    rw [h.base_values] at hlt
    exact Nat.not_lt.2 (ValueId.le_move shift value) hlt
  · intro other
    rw [value?_modifyValue, value?_modifyValue]
    by_cases ho : other = value
    · subst ho
      rw [if_pos rfl, if_pos rfl, h.own_value]
      cases own.value? other with
      | none => rfl
      | some held => simp [hchange]
    · rw [if_neg ho, if_neg (fun heq => ho (ValueId.move_injective shift heq)), h.own_value]

theorem withType_move (type : TypeId) (held : AbstractValue) :
    withType (type.move shift) (held.move shift) = (withType type held).move shift := by
  simp only [withType, AbstractValue.move, insertNew_map]

/-- An object type is none of the primitives. -/
theorem Sound.le_of_object? {type : TypeId} {object : ObjectType} (h : own.Sound locals)
    (ho : own.object? type = some object) : 3 ≤ type.index := by
  obtain ⟨index⟩ := type
  rw [← Nat.not_lt]
  intro hlt
  have hcases : index = 0 ∨ index = 1 ∨ index = 2 := by
    simp only at hlt
    omega
  have htype := own.type?_of_object? ho
  rcases hcases with rfl | rfl | rfl
  · rw [show own.type? ⟨0⟩ = some (.primitive .number) from h.primitive .number] at htype
    cases htype
  · rw [show own.type? ⟨1⟩ = some (.primitive .string) from h.primitive .string] at htype
    cases htype
  · rw [show own.type? ⟨2⟩ = some (.primitive .bool) from h.primitive .bool] at htype
    cases htype

theorem Embeds.setType {type : TypeId} (h : Embeds shift base own whole) (shape : TypeShape)
    (hlt : type.index < own.types.size) (hle : 3 ≤ type.index) :
    Embeds shift base (own.setType type shape)
      (whole.setType (type.move shift) (shape.move shift)) := by
  have hsize := h.types_size
  have hmove : (type.move shift).index < whole.types.size := by
    rw [TypeId.move, if_neg (Nat.not_lt.2 hle)]
    simp only
    omega
  refine ⟨h.base_types, h.base_values, ?_, h.values_size, ?_, h.old_value, ?_, h.own_value⟩
  · rw [types_size_setType, types_size_setType, h.types_size]
  · intro other hother
    rw [type?_setType _ _ _ _ hmove, if_neg, h.old_type other hother]
    rintro rfl
    rw [h.base_types] at hother
    exact Nat.not_lt.2 (TypeId.le_move shift hle) hother
  · intro other
    rw [type?_setType _ _ _ _ hmove, type?_setType _ _ _ _ hlt]
    by_cases ho : other = type
    · rw [if_pos ho, if_pos (by rw [ho])]
      rfl
    · rw [if_neg ho, if_neg (fun heq => ho (TypeId.move_injective shift heq)), h.own_type]

theorem Embeds.addMember {type : TypeId} {object : ObjectType} (name : String)
    (h : Embeds shift base own whole) (hown : own.Sound locals)
    (ho : own.object? type = some object) :
    Embeds shift base (own.addMember type object name)
      (whole.addMember (type.move shift) (object.move shift) name) := by
  have hmembers : (object.move shift).members.put name ⟨whole.values.size⟩ =
      (object.members.put name ⟨own.values.size⟩).map (·.move shift) := by
    rw [Keyed.map_put]
    simp only [ObjectType.move, ValueId.move]
    rw [h.values_size, Nat.add_comm]
  unfold Store.addMember
  rw [hmembers]
  exact h.newValue.setType _ (lt_of_type? (own.type?_of_object? ho)) (hown.le_of_object? ho)

end Store

end Capabilities.Types
