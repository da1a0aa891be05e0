import Capabilities.Proofs.Types.Arena

/-!
# Propagation as an ordered union

Types are copied one after the other, and each of them is put behind what the target holds unless
it is there. As no value holds a type twice, the target ends with what it held, followed by those
types of the source that it did not hold, in the order of the source. The source may be the target.

The ids are not looked at alike. The source is looked up first, so an unknown source is always
refused. The target is only looked up when a type is added to it, so an unknown target goes
unnoticed if the source holds nothing.
-/

namespace Capabilities.Types.Store

/-! ### Insertions one after the other -/

/-- Items without repetition come behind those that are there, but for those among them. -/
theorem foldl_insertNew_of_nodup {α : Type} [DecidableEq α] {items : List α} (h : items.Nodup)
    (held : List α) : items.foldl insertNew held = held ++ items.filter (· ∉ held) := by
  induction items generalizing held with
  | nil => simp
  | cons item rest ih =>
    obtain ⟨hitem, hrest⟩ := List.nodup_cons.1 h
    rw [List.foldl_cons, ih hrest]
    by_cases hheld : item ∈ held
    · rw [insertNew_of_mem hheld, List.filter_cons_of_neg (by simpa using hheld)]
    · have hrest : rest.filter (· ∉ held ++ [item]) = rest.filter (· ∉ held) := by
        refine List.filter_congr fun other hother => ?_
        have hne : other ≠ item := fun heq => hitem (heq ▸ hother)
        simp [hne]
      rw [show insertNew held item = held ++ [item] from if_neg (by simpa using hheld), hrest,
        List.filter_cons_of_pos (by simpa using hheld), List.append_assoc]
      rfl

variable {store next other : Store} {source target : ValueId} {held : AbstractValue}

/-- Known types that are added to a value are inserted in it one after the other. -/
theorem addTypes_eq {types : List TypeId} (htarget : store.value? target = some held)
    (htypes : ∀ type ∈ types, type.index < store.types.size) :
    store.addTypes target types = (.ok (), store.modifyValue target fun held =>
      { held with types := types.foldl insertNew held.types }) := by
  induction types generalizing store held with
  | nil =>
    refine Prod.ext rfl ?_
    exact (modifyValue_of_fixed store htarget rfl).symm
  | cons type rest ih =>
    have hnext : (store.modifyValue target (withType type)).value? target =
        some (withType type held) := by
      rw [value?_modifyValue, if_pos rfl, htarget]
      rfl
    unfold addTypes
    rw [addType_eq store (htypes type List.mem_cons_self) htarget]
    simp only
    rw [ih hnext fun other hother => htypes other (List.mem_cons_of_mem _ hother),
      modifyValue_modifyValue]
    rfl

/-! ### What is refused -/

/-- Why a propagation is refused, if it is: nothing is looked at behind an unknown source, and an
    unknown target is only met by a type. -/
def refusal? (store : Store) (source target : ValueId) : Option StoreError :=
  match store.value? source with
  | none => some (.unknownValue source)
  | some held =>
    if store.value? target = none ∧ held.types ≠ [] then some (.unknownValue target) else none

theorem refusal?_eq_some_iff {error : StoreError} :
    store.refusal? source target = some error ↔
      store.value? source = none ∧ error = .unknownValue source ∨
        store.value? source ≠ none ∧ store.value? target = none ∧ store.typesOf source ≠ [] ∧
          error = .unknownValue target := by
  unfold refusal?
  cases hsource : store.value? source with
  | none => simp [eq_comm (a := error)]
  | some held => simp [typesOf_eq store hsource, and_assoc, eq_comm (a := error)]

theorem refusal?_eq_none_iff :
    store.refusal? source target = none ↔
      store.value? source ≠ none ∧ (store.value? target ≠ none ∨ store.typesOf source = []) := by
  unfold refusal?
  cases hsource : store.value? source with
  | none => simp
  | some held => simp [typesOf_eq store hsource, Classical.or_iff_not_imp_left]

theorem propagate_refused {error : StoreError}
    (hheld : ∀ value type, type ∈ store.typesOf value → type.index < store.types.size)
    (h : store.refusal? source target = some error) :
    store.propagate source target = (.error error, store) := by
  rcases refusal?_eq_some_iff.1 h with ⟨hsource, rfl⟩ | ⟨hsource, htarget, hlist, rfl⟩
  · unfold propagate
    rw [hsource]
  · obtain ⟨held, hsource⟩ := Option.ne_none_iff_exists'.1 hsource
    obtain ⟨type, rest, hlist⟩ := List.exists_cons_of_ne_nil hlist
    have hmem : type ∈ store.typesOf source := hlist ▸ List.mem_cons_self
    obtain ⟨shape, hshape⟩ := store.exists_type? (hheld source type hmem)
    rw [typesOf_eq store hsource] at hlist
    -- the first of the types meets the unknown target
    simp only [propagate, hsource, hlist, addTypes, addType, hshape, htarget, Option.isNone_some,
      Bool.false_eq_true, if_false]

/-! ### What is copied -/

/-- The types of the source were put behind those of the target, but for those it held; nothing
    else was changed. -/
structure Unites (source target : ValueId) (store next : Store) : Prop where
  types : next.types = store.types
  others : ∀ value, value ≠ target → next.value? value = store.value? value
  target : next.value? target = (store.value? target).map fun held =>
    { held with types := held.types ++ (store.typesOf source).filter (· ∉ held.types) }

theorem Unites.value? (h : Unites source target store next) (value : ValueId) :
    next.value? value = if value = target then (store.value? target).map fun held =>
        { held with types := held.types ++ (store.typesOf source).filter (· ∉ held.types) }
      else store.value? value := by
  split
  · next heq => rw [heq, h.target]
  · next hne => exact h.others value hne

/-- There is only one store in which the types are united. -/
theorem Unites.unique (h : Unites source target store next)
    (h' : Unites source target store other) : next = other := by
  have hvalues : next.values = other.values := Array.ext_getElem? fun index =>
    (h.value? ⟨index⟩).trans (h'.value? ⟨index⟩).symm
  obtain ⟨types, values⟩ := next
  obtain ⟨types', values'⟩ := other
  rw [Store.mk.injEq]
  exact ⟨h.types.trans h'.types.symm, hvalues⟩

/-- What was united already stays as it is. -/
theorem Unites.refl
    (h : ∀ held, store.value? target = some held →
      ∀ type ∈ store.typesOf source, type ∈ held.types) :
    Unites source target store store := by
  refine ⟨rfl, fun _ _ => rfl, ?_⟩
  cases htarget : store.value? target with
  | none => rfl
  | some held =>
    have hnew : (store.typesOf source).filter (· ∉ held.types) = [] :=
      List.filter_eq_nil_iff.2 fun type htype => by simpa using h held htarget type htype
    rw [Option.map_some, hnew, List.append_nil]

/-- After types were united the target holds all types that the source holds then, which are those
    it held before if it is another value. -/
theorem Unites.again (h : Unites source target store next) : Unites source target next next := by
  refine .refl fun held hheld type htype => ?_
  by_cases hsame : source = target
  · rwa [hsame, typesOf_eq next hheld] at htype
  · rw [typesOf_of_value?_eq (h.others source hsame)] at htype
    rw [h.target] at hheld
    obtain ⟨before, -, rfl⟩ := Option.map_eq_some_iff.1 hheld
    by_cases hbefore : type ∈ before.types
    · exact List.mem_append_left _ hbefore
    · exact List.mem_append_right _ (List.mem_filter.2 ⟨htype, by simpa using hbefore⟩)

/-- Where there is no target, or all is held already, only the store as it is unites the types. -/
theorem Unites.eq_of_missing (h : Unites source target store next)
    (htarget : store.value? target = none) : next = store :=
  h.unique (.refl fun held hheld => by rw [htarget] at hheld; cases hheld)

theorem Unites.refusal? (h : Unites source target store next)
    (hnone : store.refusal? source target = none) : next.refusal? source target = none := by
  cases htarget : store.value? target with
  | none => rwa [h.eq_of_missing htarget]
  | some into =>
    have hnext : ∀ value, store.value? value ≠ none → next.value? value ≠ none := by
      intro value hvalue
      rw [h.value? value]
      split
      · rw [htarget]
        exact Option.some_ne_none _
      · exact hvalue
    exact refusal?_eq_none_iff.2 ⟨hnext source (refusal?_eq_none_iff.1 hnone).1,
      Or.inl (hnext target (htarget ▸ Option.some_ne_none _))⟩

theorem propagate_united (hstore : store.WellFormed) (h : store.refusal? source target = none) :
    ∃ next, store.propagate source target = (.ok (), next) ∧ Unites source target store next := by
  obtain ⟨hsource, hplace⟩ := refusal?_eq_none_iff.1 h
  obtain ⟨held, hsource⟩ := Option.ne_none_iff_exists'.1 hsource
  have htypes : store.typesOf source = held.types := typesOf_eq store hsource
  unfold propagate
  rw [hsource]
  cases htarget : store.value? target with
  | none =>
    have hnothing : held.types = [] := htypes ▸ hplace.resolve_left (not_not_intro htarget)
    simp only [hnothing]
    exact ⟨store, rfl, .refl fun into hinto => by rw [htarget] at hinto; cases hinto⟩
  | some into =>
    have hknown : ∀ type ∈ held.types, type.index < store.types.size := fun type htype =>
      hstore.sound.held source type (htypes.symm ▸ htype)
    refine ⟨_, addTypes_eq htarget hknown, rfl, fun value hne => ?_, ?_⟩
    · rw [value?_modifyValue, if_neg hne]
    · rw [value?_modifyValue, if_pos rfl]
      congr 1
      funext into
      rw [htypes, foldl_insertNew_of_nodup (hstore.value source held hsource).1]

/-- A propagation is refused just if the source is unknown, or the target is and there is a type to
    copy; then nothing changes. Else the target ends with what it held and then the types of the
    source that it did not hold, in their order, and nothing else changes; the same propagation
    does nothing after that. -/
theorem propagate_unites (hstore : store.WellFormed) (source target : ValueId) :
    (∀ error next, store.propagate source target = (.error error, next) ↔
      next = store ∧
        (store.value? source = none ∧ error = .unknownValue source ∨
          store.value? source ≠ none ∧ store.value? target = none ∧
            store.typesOf source ≠ [] ∧ error = .unknownValue target)) ∧
      (∀ next, store.propagate source target = (.ok (), next) ↔
        store.value? source ≠ none ∧
          (store.value? target ≠ none ∨ store.typesOf source = []) ∧
          Unites source target store next) ∧
      ∀ next, store.propagate source target = (.ok (), next) →
        next.propagate source target = (.ok (), next) := by
  have hheld := hstore.sound.held
  cases hrefusal : store.refusal? source target with
  | some error =>
    have hreason := refusal?_eq_some_iff.1 hrefusal
    have hknown := refusal?_eq_none_iff.not.1 (hrefusal ▸ Option.some_ne_none _)
    rw [propagate_refused hheld hrefusal]
    refine ⟨fun other next => ⟨?_, ?_⟩, fun next => ⟨?_, ?_⟩, ?_⟩
    · rintro ⟨⟩
      exact ⟨rfl, hreason⟩
    · rintro ⟨rfl, hother⟩
      rw [Option.some.inj (hrefusal.symm.trans (refusal?_eq_some_iff.2 hother))]
    · rintro ⟨⟩
    · exact fun ⟨hsource, htarget, _⟩ => absurd ⟨hsource, htarget⟩ hknown
    · rintro next ⟨⟩
  | none =>
    obtain ⟨hsource, htarget⟩ := refusal?_eq_none_iff.1 hrefusal
    obtain ⟨united, hunited, hunites⟩ := propagate_united hstore hrefusal
    have hwell : united.WellFormed := by
      have houtcome : Outcome (fun _ _ => False) store (store.propagate source target) :=
        outcome_propagate source target hheld
      have hchanges := houtcome.changes
      rw [hunited] at hchanges
      exact hchanges.wellFormed hstore
    rw [hunited]
    refine ⟨fun error next => ⟨?_, ?_⟩, fun next => ⟨?_, ?_⟩, ?_⟩
    · rintro ⟨⟩
    · rintro ⟨-, hreason⟩
      rw [refusal?_eq_some_iff.2 hreason] at hrefusal
      cases hrefusal
    · rintro ⟨⟩
      exact ⟨hsource, htarget, hunites⟩
    · rintro ⟨-, -, hnext⟩
      rw [hunites.unique hnext]
    · rintro next ⟨⟩
      obtain ⟨again, hagain, hsame⟩ := propagate_united hwell (hunites.refusal? hrefusal)
      rw [hagain, hsame.unique hunites.again]

/-- A value that holds a string and a number is copied to one that holds a truth value and a
    string. -/
theorem propagate_unites_primitives :
    let store := initial.run [.newValue, .newValue, .addType ⟨0⟩ ⟨1⟩, .addType ⟨0⟩ ⟨0⟩,
      .addType ⟨1⟩ ⟨2⟩, .addType ⟨1⟩ ⟨1⟩]
    Unites ⟨0⟩ ⟨1⟩ store (store.propagate ⟨0⟩ ⟨1⟩).2 ∧
      (store.propagate ⟨0⟩ ⟨1⟩).2.typesOf ⟨1⟩ = [⟨2⟩, ⟨1⟩, ⟨0⟩] :=
  ⟨(((propagate_unites (wellFormed_run _ .initial) ⟨0⟩ ⟨1⟩).2.1 _).1 rfl).2.2, by decide⟩

/-- A value that holds nothing is copied to a value that is not there, and nothing is refused. -/
theorem propagate_to_unknown :
    initial.newValue.2.WellFormed ∧ initial.newValue.2.value? ⟨1⟩ = none ∧
      initial.newValue.2.propagate ⟨0⟩ ⟨1⟩ = (.ok (), initial.newValue.2) :=
  ⟨wellFormed_run [.newValue] .initial, rfl, rfl⟩

end Capabilities.Types.Store
