import Capabilities.Inference.Run
import Capabilities.Proofs.Steps
import Capabilities.Proofs.Types.Scopes

/-!
# A run in a larger store

A run that begins in the initial store has a twin that begins in any sound store: its scopes and
tables are the same up to the shift of the ids, and its store holds what was there before and
behind it what the first run made. Every step that touches no tree keeps the two runs twins.
-/

namespace Capabilities.Inference

open Capabilities.Types

def Run.locals (run : Run) (file : String) : Variables :=
  fun of => if of.file = file then run.scopes.own? of.scope of.name else none

/-- A run and its twin behind `base`. -/
structure Run.Twin (shift : Shift) (base : Store) (file : String) (own whole : Run) : Prop where
  inside : Store.Inside shift base (own.locals file) own.store whole.store
  scopes : whole.scopes = own.scopes.move shift
  expressions : whole.expressions = own.expressions.map fun entry => (entry.1, entry.2.move shift)
  functions : whole.functions = own.functions.map fun entry => (entry.1, entry.2.move shift)
  noted : ∀ entry ∈ own.expressions, Located.Within own.store entry.2
  remembered : ∀ entry ∈ own.functions, Located.Within own.store entry.2

/-- Runs on a file, in a store of its own and behind `base`. -/
abbrev runTwins (shift : Shift) (base : Store) (file : String) : Twins Run where
  shift := shift
  Related := Run.Twin shift base file
  store := Run.store

instance : Located Place where
  move shift place := { place with result := Located.move shift place.result }
  Within store place := Located.Within store place.result
  mono h hplace := Located.mono h hplace

variable {shift : Shift} {base start : Store} {file : String}

/-! ### Steps on the store -/

theorem agree_onStore {α : Type} [Located α] {good : Store → α → Prop}
    {operation twin : Store → Except StoreError α × Store}
    (h : Store.Matched shift base start operation twin good) :
    (runTwins shift base file).Agree start (onStore operation) (onStore twin) good := by
  intro own whole hrelated hgrows
  obtain ⟨answer, next, nextWhole, hown, hwhole, hinside, hgrows', hgood⟩ :=
    h _ _ _ hrelated.inside hgrows
  refine ⟨answer, { own with store := next }, { whole with store := nextWhole }, ?_, ?_, ?_,
    hgrows', hgood⟩
  · change ((operation own.store).1, { own with store := (operation own.store).2 }) = _
    rw [hown]
  · change ((twin whole.store).1, { whole with store := (twin whole.store).2 }) = _
    rw [hwhole]
  · refine ⟨hinside, hrelated.scopes, hrelated.expressions, hrelated.functions, ?_, ?_⟩
    · intro entry hentry
      exact Located.mono hgrows' (hrelated.noted entry hentry)
    · intro entry hentry
      exact Located.mono hgrows' (hrelated.remembered entry hentry)

theorem agree_newValue :
    (runTwins shift base file).Agree start newValue newValue Located.Within :=
  agree_onStore Store.Matched.newValue

theorem agree_newObject (name origin : Option String) :
    (runTwins shift base file).Agree start (growing (·.newObject name origin))
      (growing (·.newObject name origin)) fun store type => (store.object? type).isSome = true :=
  agree_onStore (Store.Matched.newObject name origin)

theorem agree_addType {value : ValueId} {type : TypeId} (hv : Located.Within start value)
    (ht : Located.Within start type) :
    (runTwins shift base file).Agree start (addType value type)
      (addType (value.move shift) (type.move shift)) fun _ _ => True :=
  Twins.Agree.bind (agree_onStore (Store.Matched.addType hv ht)) fun _ _ _ _ => .done

theorem agree_propagate {source target : ValueId} (hs : Located.Within start source)
    (ht : Located.Within start target) :
    (runTwins shift base file).Agree start (propagate source target)
      (propagate (source.move shift) (target.move shift)) fun _ _ => True :=
  agree_onStore (Store.Matched.propagate hs ht)

theorem agree_ensureMember {object : TypeId} (name : String)
    (ho : (start.object? object).isSome = true) :
    (runTwins shift base file).Agree start (ensureMember object name)
      (ensureMember (object.move shift) name) Located.Within :=
  agree_onStore (Store.Matched.ensureMember name ho)

theorem agree_valueOf {type : TypeId} (ht : Located.Within start type) :
    (runTwins shift base file).Agree start (valueOf type) (valueOf (type.move shift))
      Located.Within := by
  refine Twins.Agree.bind agree_newValue ?_
  intro later value hgrows hvalue
  refine Twins.Agree.bind (agree_addType hvalue (Located.mono hgrows ht)) ?_
  intro last _ hgrows' _
  exact .pure _ fun next hnext => Located.mono (hgrows'.trans hnext) hvalue

theorem agree_functionType (place : Place) (node : Script.Node) :
    (runTwins shift base file).Agree start (functionType place node)
      (functionType (Located.move shift place) node) Located.Within :=
  agree_onStore (Store.Matched.newFunction _ _ _)

theorem agree_flow {source : ValueId} {target : Option ValueId}
    (hs : Located.Within start source) (ht : Located.Within start target) :
    (runTwins shift base file).Agree start (flow source target)
      (flow (source.move shift) (Located.move shift target)) fun _ _ => True := by
  cases target with
  | none => exact .done
  | some target => exact agree_propagate hs (ht target rfl)

/-- A look at the store. -/
theorem agree_store {β : Type} [Located β] {result : Store → β → Prop}
    {next twinNext : Store → Infer β}
    (h : ∀ locals own whole, Store.Inside shift base locals own whole → start.Grows own →
      (runTwins shift base file).Agree own (next own) (twinNext whole) result) :
    (runTwins shift base file).Agree start (store >>= next) (store >>= twinNext) result :=
  Twins.Agree.look fun own whole hrelated hgrows =>
    h _ own.store whole.store hrelated.inside hgrows

/-! ### Steps on scopes and tables -/

/-- What a scope declares has a value in the store. -/
theorem Run.Twin.within_own? {own whole : Run} {owner : ScopeId} {name : String}
    {value : ValueId} (h : Run.Twin shift base file own whole)
    (hvalue : own.scopes.own? owner name = some value) : Located.Within own.store value := by
  refine h.inside.sound.placed (.ofVariable ⟨file, owner, name⟩) value ?_
  change own.locals file ⟨file, owner, name⟩ = some value
  rw [Run.locals, if_pos rfl]
  exact hvalue

theorem agree_lookup? (place : Place) (name : String) :
    (runTwins shift base file).Agree start (lookup? place name)
      (lookup? (Located.move shift place) name) Located.Within := by
  refine Twins.Agree.look ?_
  intro own whole hrelated hgrows
  have hwhole : whole.scopes.lookup? (Located.move shift place).scope name =
      Located.move shift (own.scopes.lookup? place.scope name) := by
    rw [hrelated.scopes]
    exact own.scopes.lookup?_move shift place.scope name
  rw [hwhole]
  refine .pure _ ?_
  intro next hnext value hvalue
  obtain ⟨owner, howner⟩ := Scopes.exists_own?_of_lookupWithin hvalue
  exact Located.mono hnext (hrelated.within_own? howner)

theorem agree_registerScope (id : ScopeId) (parent : Option ScopeId) :
    (runTwins shift base file).Agree start (registerScope id parent) (registerScope id parent)
      fun _ _ => True := by
  intro own whole hrelated _
  refine ⟨(), { own with scopes := own.scopes.register id parent },
    { whole with scopes := whole.scopes.register id parent }, rfl, rfl, ?_, .refl _, trivial⟩
  have hvariables : Run.locals { own with scopes := own.scopes.register id parent } file =
      own.locals file := by
    funext of
    simp only [Run.locals, Scopes.own?_register]
  refine ⟨?_, ?_, hrelated.expressions, hrelated.functions, hrelated.noted,
    hrelated.remembered⟩
  · rw [hvariables]
    exact hrelated.inside
  · rw [hrelated.scopes, ← Scopes.register_move]

theorem run_declare (scope : ScopeId) (name : String) (run : Run) :
    (declare scope name).run.run run =
      (.ok (run.scopes.declare run.store scope name).1,
        { run with
          scopes := (run.scopes.declare run.store scope name).2.1
          store := (run.scopes.declare run.store scope name).2.2 }) := rfl

theorem agree_declare (scope : ScopeId) (name : String) :
    (runTwins shift base file).Agree start (declare scope name) (declare scope name)
      Located.Within := by
  intro own whole hrelated _
  have hget : whole.scopes.get? scope = (own.scopes.get? scope).map (·.move shift) := by
    rw [hrelated.scopes]
    exact own.scopes.get?_move shift scope
  have hown : whole.scopes.own? scope name = (own.scopes.own? scope name).map (·.move shift) := by
    rw [hrelated.scopes]
    exact own.scopes.own?_move shift scope name
  simp only [run_declare]
  cases hscope : own.scopes.get? scope with
  | none =>
    rw [hscope] at hget
    rw [Scopes.declare_missing _ _ hscope, Scopes.declare_missing _ _ hget]
    refine ⟨none, own, whole, rfl, rfl, hrelated, .refl _, ?_⟩
    intro value hvalue
    cases hvalue
  | some found =>
    rw [hscope] at hget
    cases hvalue : own.scopes.own? scope name with
    | some value =>
      rw [hvalue] at hown
      rw [Scopes.declare_present _ hvalue, Scopes.declare_present _ hown]
      refine ⟨some value, own, whole, rfl, rfl, hrelated, .refl _, ?_⟩
      intro other hother
      cases hother
      exact hrelated.within_own? hvalue
    | none =>
      rw [hvalue] at hown
      have hnew := hrelated.inside.embeds.newValue_fst
      have hwithin : Located.Within own.store.newValue.2 own.store.newValue.1 := by
        change own.store.values.size < own.store.newValue.2.values.size
        rw [Store.values_size_newValue]
        exact Nat.lt_succ_self _
      rw [Scopes.declare_absent _ hscope hvalue, Scopes.declare_absent _ hget hown, hnew]
      refine ⟨some own.store.newValue.1,
        { own with
          scopes := own.scopes.withVariable scope name own.store.newValue.1
          store := own.store.newValue.2 },
        { whole with
          scopes := whole.scopes.withVariable scope name (own.store.newValue.1.move shift)
          store := whole.store.newValue.2 },
        rfl, rfl, ?_, Store.Grows.newValue _, ?_⟩
      · have hsound := hrelated.inside.sound
        refine ⟨⟨hrelated.inside.embeds.newValue, ?_, hrelated.inside.plain.newValue⟩, ?_,
          hrelated.expressions, hrelated.functions, ?_, ?_⟩
        · refine hsound.declare ⟨file, scope, name⟩ ?_
          intro of value hof
          simp only [Run.locals, Scopes.own?_withVariable name _ hscope] at hof
          split at hof
          · rename_i hfile
            split at hof
            · rename_i heq
              refine Or.inr ⟨?_, (Option.some.inj hof).symm⟩
              obtain ⟨ofFile, ofScope, ofName⟩ := of
              obtain ⟨rfl, rfl⟩ := heq
              subst hfile
              rfl
            · left
              rw [Run.locals, if_pos hfile]
              exact hof
          · cases hof
        · rw [hrelated.scopes, Scopes.withVariable_move]
        · intro entry hentry
          exact Located.mono (Store.Grows.newValue _) (hrelated.noted entry hentry)
        · intro entry hentry
          exact Located.mono (Store.Grows.newValue _) (hrelated.remembered entry hentry)
      · intro value hvalue'
        cases hvalue'
        exact hwithin

theorem agree_note (id : Nat) {value : ValueId} (hv : Located.Within start value) :
    (runTwins shift base file).Agree start (note id value) (note id (value.move shift))
      fun _ _ => True := by
  intro own whole hrelated hgrows
  refine ⟨(), { own with expressions := (id, value) :: own.expressions },
    { whole with expressions := (id, value.move shift) :: whole.expressions }, rfl, rfl, ?_,
    .refl _, trivial⟩
  refine ⟨hrelated.inside, hrelated.scopes, ?_, hrelated.functions, ?_, hrelated.remembered⟩
  · rw [hrelated.expressions]
    rfl
  · intro entry hentry
    rcases List.mem_cons.1 hentry with rfl | hentry
    · exact Located.mono hgrows hv
    · exact hrelated.noted entry hentry

theorem agree_remember (id : Nat) {type : TypeId} (ht : Located.Within start type) :
    (runTwins shift base file).Agree start (remember id type) (remember id (type.move shift))
      fun _ _ => True := by
  intro own whole hrelated hgrows
  refine ⟨(), { own with functions := (id, type) :: own.functions },
    { whole with functions := (id, type.move shift) :: whole.functions }, rfl, rfl, ?_,
    .refl _, trivial⟩
  refine ⟨hrelated.inside, hrelated.scopes, hrelated.expressions, ?_, hrelated.noted, ?_⟩
  · rw [hrelated.functions]
    rfl
  · intro entry hentry
    rcases List.mem_cons.1 hentry with rfl | hentry
    · exact Located.mono hgrows ht
    · exact hrelated.remembered entry hentry

theorem lookup_map {α β : Type} (change : α → β) (entries : List (Nat × α)) (id : Nat) :
    (entries.map fun entry => (entry.1, change entry.2)).lookup id =
      (entries.lookup id).map change := by
  induction entries with
  | nil => rfl
  | cons entry rest ih =>
    obtain ⟨key, value⟩ := entry
    simp only [List.map_cons, List.lookup_cons, ih]
    split <;> rfl

theorem agree_remembered? (id : Nat) :
    (runTwins shift base file).Agree start (remembered? id) (remembered? id)
      Located.Within := by
  refine Twins.Agree.look ?_
  intro own whole hrelated hgrows
  have hwhole : whole.functions.lookup id = Located.move shift (own.functions.lookup id) := by
    rw [hrelated.functions, lookup_map]
    rfl
  rw [hwhole]
  refine .pure _ ?_
  intro next hnext type htype
  exact Located.mono hnext (hrelated.remembered _ (mem_of_lookup htype))

end Capabilities.Inference
