import Capabilities.Proofs.Session.Chronicle
import Mathlib.Data.List.Pairwise
import Mathlib.Logic.Relator

/-!
# The same types under other ids

Two sessions that loaded the same texts last have blocks that correspond to each other, wherever
these lie in the two stores. Types at the same position in corresponding blocks have the same
names, members, parameters and documentation, and what they hold corresponds again.
-/

namespace Capabilities.Session

open Script Resolver Capabilities.Types Capabilities.Module

/-! ### Renaming -/

/-- Types with the same contents, up to the renaming of what they hold. -/
inductive Alike (renames : TypeId → TypeId → Prop) (first second : Store) :
    TypeShape → TypeShape → Prop where
  | primitive (kind : Primitive) : Alike renames first second (.primitive kind) (.primitive kind)
  | object {type other : ObjectType} (hname : type.name = other.name)
    (hdoc : type.doc = other.doc) (horigin : type.origin = other.origin)
    (hkeys : type.members.keys = other.members.keys)
    (hmembers : ∀ name member twin, type.members.get? name = some member →
      other.members.get? name = some twin →
      List.Forall₂ renames (first.typesOf member) (second.typesOf twin)) :
    Alike renames first second (.object type) (.object other)
  | function {type other : FunctionType} (hname : type.name = other.name)
    (hparameters : type.parameters = other.parameters) (hdoc : type.doc = other.doc)
    (horigin : type.origin = other.origin)
    (hresult : List.Forall₂ renames (first.typesOf type.result) (second.typesOf other.result)) :
    Alike renames first second (.function type) (.function other)

/-- A renaming of types between two stores: it is one to one, and the types that it relates have
    the same contents, so all that is reached from one is renamed to what is reached from the
    other. -/
structure Renaming (renames : TypeId → TypeId → Prop) (first second : Store) : Prop where
  unique : Relator.BiUnique renames
  alike : ∀ type other, renames type other → ∃ shape twin, first.type? type = some shape ∧
    second.type? other = some twin ∧ Alike renames first second shape twin

/-! ### Corresponding blocks -/

/-- Types at the same position in the blocks that the last load of a path has left. -/
def Corresponds [Parser] (config : Config) (loads others : List Load) (type other : TypeId) :
    Prop :=
  ∃ (path : String) (load twin : Load) (inner : TypeId), lastLoad loads path = some load ∧
    lastLoad others path = some twin ∧ load.text = twin.text ∧
    inner.index < (load.provided config).store.types.size ∧
    type = inner.move load.shift ∧ other = inner.move twin.shift

variable {config : Config} {loads others : List Load} {load twin : Load} {work after : Work}
  {path : String}

theorem text_of_lastLoad (h : lastLoad loads path = some load) :
    load ∈ loads ∧ load.text.1 = path :=
  ⟨List.mem_reverse.1 (List.mem_of_find?_eq_some h), by simpa using List.find?_some h⟩

variable [Parser]

theorem Load.provided_of_text (h : load.text = twin.text) :
    load.provided config = twin.provided config := by
  unfold Load.provided
  rw [h]

theorem Corresponds.symm {type other : TypeId} (h : Corresponds config loads others type other) :
    Corresponds config others loads other type := by
  obtain ⟨path, load, twin, inner, hload, htwin, htext, hlt, htype, hother⟩ := h
  rw [Load.provided_of_text htext] at hlt
  exact ⟨path, twin, load, inner, htwin, hload, htext.symm, hlt, hother, htype⟩

theorem Recorded.before_or (h : Recorded config loads work) (hload : load ∈ loads)
    (htwin : twin ∈ loads) :
    load = twin ∨ Load.Before config load twin ∨ Load.Before config twin load := by
  let ordered : Load → Load → Prop := fun first second =>
    first = second ∨ Load.Before config first second ∨ Load.Before config second first
  have hsymm : Std.Symm ordered := ⟨fun _ _ hor => hor.imp Eq.symm Or.symm⟩
  have hall : loads.Pairwise ordered := h.apart.imp fun hbefore => Or.inr (Or.inl hbefore)
  have hself : ∀ other ∈ loads, ordered other other := fun _ _ => Or.inl rfl
  exact hall.forall_of_forall hself hload htwin

/-- No two blocks overlap, but all share the primitives. -/
theorem Recorded.block_unique {inner moved : TypeId} (h : Recorded config loads work)
    (hload : load ∈ loads) (htwin : twin ∈ loads)
    (hinner : inner.index < (load.provided config).store.types.size)
    (hmoved : moved.index < (twin.provided config).store.types.size)
    (heq : inner.move load.shift = moved.move twin.shift) :
    inner = moved ∧ (3 ≤ inner.index → load = twin) := by
  have hprimitive : ∀ (type other : TypeId) (shift next : Shift), type.index < 3 →
      type.move shift = other.move next → type = other := by
    intro type other shift next hlt hsame
    rw [TypeId.move_of_lt shift hlt] at hsame
    by_cases hother : other.index < 3
    · rw [hsame, TypeId.move_of_lt next hother]
    · have hle := TypeId.le_move next (Nat.not_lt.1 hother)
      rw [← hsame] at hle
      exact absurd (Nat.le_trans next.primitives_le hle) (Nat.not_le.2 hlt)
  by_cases hlt : inner.index < 3
  · exact ⟨hprimitive _ _ _ _ hlt heq, fun hle => absurd hlt (Nat.not_lt.2 hle)⟩
  by_cases hlt' : moved.index < 3
  · have hsame := (hprimitive _ _ _ _ hlt' heq.symm).symm
    exact ⟨hsame, fun hle => absurd (hsame ▸ hlt') (Nat.not_lt.2 hle)⟩
  have hle := TypeId.le_move load.shift (Nat.not_lt.1 hlt)
  have hle' := TypeId.le_move twin.shift (Nat.not_lt.1 hlt')
  rcases h.before_or hload htwin with rfl | hbefore | hbehind
  · exact ⟨TypeId.move_injective load.shift heq, fun _ => rfl⟩
  · have hbelow := hbefore inner hinner
    rw [heq] at hbelow
    exact absurd hbelow (Nat.not_lt.2 hle')
  · have hbelow := hbehind moved hmoved
    rw [← heq] at hbelow
    exact absurd hbelow (Nat.not_lt.2 hle)

/-- A type corresponds to one type at most. -/
theorem Recorded.corresponds_unique {type first second : TypeId} (h : Recorded config loads work)
    (hfirst : Corresponds config loads others type first)
    (hsecond : Corresponds config loads others type second) : first = second := by
  obtain ⟨path, load, twin, inner, hload, htwin, _, hlt, rfl, rfl⟩ := hfirst
  obtain ⟨path', load', twin', inner', hload', htwin', _, hlt', heq, rfl⟩ := hsecond
  obtain ⟨hmem, rfl⟩ := text_of_lastLoad hload
  obtain ⟨hmem', rfl⟩ := text_of_lastLoad hload'
  obtain ⟨rfl, hsame⟩ := h.block_unique hmem hmem' hlt hlt' heq
  by_cases hprimitive : inner.index < 3
  · rw [TypeId.move_of_lt _ hprimitive, TypeId.move_of_lt _ hprimitive]
  · have hloads := hsame (Nat.not_lt.1 hprimitive)
    rw [hloads] at htwin
    rw [Option.some.inj (htwin.symm.trans htwin')]

theorem corresponds_types {value : ValueId} (hload : lastLoad loads path = some load)
    (htwin : lastLoad others path = some twin) (htext : load.text = twin.text)
    (hstands : load.Stands config work) :
    List.Forall₂ (Corresponds config loads others)
      (((load.provided config).store.typesOf value).map (·.move load.shift))
      (((load.provided config).store.typesOf value).map (·.move twin.shift)) := by
  rw [List.forall₂_map_left_iff, List.forall₂_map_right_iff, List.forall₂_same]
  intro inner hinner
  exact ⟨path, load, twin, inner, hload, htwin, htext, hstands.sound.held value inner hinner, rfl,
    rfl⟩

/-- Corresponding types have the same contents. -/
theorem alike_of_corresponds {type other : TypeId} (h : Recorded config loads work)
    (h' : Recorded config others after)
    (hcorresponds : Corresponds config loads others type other) :
    ∃ shape twin, work.program.store.type? type = some shape ∧
      after.program.store.type? other = some twin ∧ Alike (Corresponds config loads others)
        work.program.store after.program.store shape twin := by
  obtain ⟨path, load, twin, inner, hload, htwin, htext, hlt, rfl, rfl⟩ := hcorresponds
  have hstands := h.stands load (text_of_lastLoad hload).1
  have hstands' := h'.stands twin (text_of_lastLoad htwin).1
  have hprovided : load.provided config = twin.provided config := Load.provided_of_text htext
  obtain ⟨shape, hshape⟩ := (load.provided config).store.exists_type? hlt
  have hfirst := hstands.shape inner hlt
  have hsecond := hstands'.shape inner (hprovided ▸ hlt)
  rw [← hprovided] at hsecond
  rw [hshape] at hfirst hsecond
  refine ⟨_, _, hfirst, hsecond, ?_⟩
  cases shape with
  | primitive kind => exact .primitive kind
  | object object =>
    refine .object rfl rfl rfl ?_ ?_
    · simp [ObjectType.move]
    · intro name member twin' hmember htwin'
      simp only [ObjectType.move, Keyed.get?_map] at hmember htwin'
      obtain ⟨value, hvalue, rfl⟩ := Option.map_eq_some_iff.1 hmember
      rw [hvalue] at htwin'
      cases htwin'
      have hplace : (load.provided config).store.member? inner name = some value := by
        unfold Store.member?
        rw [Store.object?_eq_some _ hshape]
        exact hvalue
      rw [hstands.member inner name value hplace,
        hstands'.member inner name value (hprovided ▸ hplace), ← hprovided]
      exact corresponds_types hload htwin htext hstands
  | function function =>
    refine .function rfl rfl rfl rfl ?_
    have hplace : (load.provided config).store.result? inner = some function.result := by
      unfold Store.result?
      rw [hshape]
    change List.Forall₂ _ (work.program.store.typesOf (function.result.move load.shift))
      (after.program.store.typesOf (function.result.move twin.shift))
    rw [hstands.result inner _ hplace, hstands'.result inner _ (hprovided ▸ hplace), ← hprovided]
    exact corresponds_types hload htwin htext hstands

/-- The correspondence of blocks is a renaming. -/
theorem renaming_corresponds (h : Recorded config loads work) (h' : Recorded config others after) :
    Renaming (Corresponds config loads others) work.program.store after.program.store := by
  refine ⟨⟨?_, ?_⟩, fun type other => alike_of_corresponds h h'⟩
  · intro first second other hfirst hsecond
    exact h'.corresponds_unique hfirst.symm hsecond.symm
  · intro type first second hfirst hsecond
    exact h.corresponds_unique hfirst hsecond

end Capabilities.Session
