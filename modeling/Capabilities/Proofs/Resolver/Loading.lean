import Capabilities.Proofs.Resolver.Ready
import Capabilities.Proofs.Resolver.Registration

/-!
# Loading a file keeps a session ready

A file that is loaded gets types and values of its own, behind those that were there, and what was
known about it before is forgotten. All other files are what they were, though a name may be
registered anew.
-/

namespace Capabilities.Resolver

open Host Script Session Capabilities.Types Capabilities.Module

/-- What loading a file makes of the work. `asked` are the files that others ask for meanwhile. -/
structure Work.Loads [Parser] (config : Config) (path text : String) (origin : Option String)
    (shift : Shift) (asked : List PendingFile) (before after : Work) : Prop where
  inside : Store.Inside shift before.program.store
    ((provision config path text).inference.locals path) (provision config path text).store
    after.program.store
  registry : ∀ name, after.state.registry.provider? name =
    (((provision config path text).registry.provider? name).map (·.move shift)).or
      (before.state.registry.provider? name)
  provided : ∀ name entry, (provision config path text).registry.provider? name = some entry →
    Located.Within (provision config path text).store entry.type ∧ entry.origin = some path
  program : after.program = { before.program with
    store := after.program.store
    files := before.program.files.put path
      ⟨.ofText path text, (provision config path text).inference.move shift, origin⟩
    queue := before.program.queue ++ asked }
  state : after.state = { before.state.resetFile path with
    registry := after.state.registry
    warnedFiles := after.state.warnedFiles
    diagnostics := after.state.diagnostics
    stages := (before.state.resetFile path).stages.put path .parsed }
  table : after.table = before.table
  orderly : path ∉ before.program.queued → before.program.Orderly → after.program.Orderly

namespace Work.Loads

variable {config : Config} {path text other : String} {origin : Option String} {shift : Shift}
  {asked : List PendingFile} {before after : Work}

variable [Parser]

theorem files (h : Work.Loads config path text origin shift asked before after) :
    after.program.files = before.program.files.put path
      ⟨.ofText path text, (provision config path text).inference.move shift, origin⟩ := by
  rw [h.program]

theorem get?_of_ne (h : Work.Loads config path text origin shift asked before after)
    (hother : other ≠ path) : after.program.files.get? other = before.program.files.get? other := by
  rw [h.files, Keyed.get?_put_of_ne _ _ hother]

theorem get?_self (h : Work.Loads config path text origin shift asked before after) :
    after.program.files.get? path =
      some ⟨.ofText path text, (provision config path text).inference.move shift, origin⟩ := by
  rw [h.files, Keyed.get?_put_self]

theorem isLoaded (h : Work.Loads config path text origin shift asked before after)
    (other : String) :
    after.program.isLoaded other = (other == path || before.program.isLoaded other) := by
  rw [h.program]
  exact Program.isLoaded_put_eq { before.program with
    store := after.program.store
    queue := before.program.queue ++ asked } path _ other

theorem localValue?_self (h : Work.Loads config path text origin shift asked before after)
    (scope : ScopeId) (name : String) :
    after.program.localValue? path scope name =
      ((provision config path text).inference.scopes.own? scope name).map (·.move shift) := by
  unfold Program.localValue?
  rw [h.get?_self, Option.bind_some]
  exact Inference.FileInference.own?_move shift _ scope name

theorem locals (h : Work.Loads config path text origin shift asked before after)
    (of : Variable) :
    after.program.locals of = if of.file = path then
      (((provision config path text).inference.locals path) of).map (·.move shift)
    else before.program.locals of := by
  unfold Program.locals
  split
  · rename_i heq
    rw [heq, h.localValue?_self]
    unfold Inference.FileInference.locals
    rw [if_pos heq]
  · rename_i hne
    unfold Program.localValue?
    rw [h.get?_of_ne hne]

theorem importsObject? (h : Work.Loads config path text origin shift asked before after)
    (file : String) : after.state.importsObject? file =
      if file = path then none else before.state.importsObject? file := by
  rw [h.state]
  exact Keyed.get?_erase _ _ _

theorem binding? (h : Work.Loads config path text origin shift asked before after)
    (file : String) : after.state.binding? file =
      if file = path then none else before.state.binding? file := by
  rw [h.state]
  exact Keyed.get?_erase _ _ _

theorem bound?_self (h : Work.Loads config path text origin shift asked before after)
    (name : String) : after.state.bound? path name = none := by
  unfold State.bound?
  rw [h.binding?, if_pos rfl]
  rfl

/-- What is registered afterwards is the file's own or was registered before. -/
theorem lookup? (h : Work.Loads config path text origin shift asked before after)
    (name : String) : after.state.registry.lookup? name =
      (((provision config path text).registry.lookup? name).map (·.move shift)).or
        (before.state.registry.lookup? name) := by
  unfold Registry.lookup?
  rw [h.registry]
  cases (provision config path text).registry.provider? name with
  | none => rfl
  | some entry => rfl

/-! ### The store -/

theorem sound (h : Work.Loads config path text origin shift asked before after)
    (hsound : before.program.store.Sound before.program.locals) :
    after.program.store.Sound after.program.locals := by
  refine h.inside.embeds.sound hsound h.inside.sound ?_
  intro of value hof
  rw [h.locals] at hof
  split at hof
  · obtain ⟨inner, hinner, rfl⟩ := Option.map_eq_some_iff.1 hof
    exact Or.inr ⟨inner, hinner, rfl⟩
  · exact Or.inl hof

theorem types_le (h : Work.Loads config path text origin shift asked before after) :
    before.program.store.types.size ≤ after.program.store.types.size :=
  h.inside.embeds.types_le h.inside.sound

theorem type? (h : Work.Loads config path text origin shift asked before after) {type : TypeId}
    (htype : type.index < before.program.store.types.size) :
    after.program.store.type? type = before.program.store.type? type :=
  h.inside.embeds.old_type type htype

theorem object? (h : Work.Loads config path text origin shift asked before after) {type : TypeId}
    (htype : type.index < before.program.store.types.size) :
    after.program.store.object? type = before.program.store.object? type := by
  unfold Store.object?
  rw [h.type? htype]

theorem value? (h : Work.Loads config path text origin shift asked before after)
    {value : ValueId} (hvalue : value.index < before.program.store.values.size) :
    after.program.store.value? value = before.program.store.value? value :=
  h.inside.embeds.old_value value hvalue

/-- A type of the file's own is a primitive or lies behind all that was there. -/
theorem new_type (h : Work.Loads config path text origin shift asked before after)
    (type : TypeId) : type.index < 3 ∧ type.move shift = type ∨
      before.program.store.types.size ≤ (type.move shift).index := by
  by_cases hlt : type.index < 3
  · exact Or.inl ⟨hlt, TypeId.move_of_lt shift hlt⟩
  · rw [h.inside.embeds.base_types]
    exact Or.inr (TypeId.le_move shift (Nat.not_lt.1 hlt))

/-- The values of a loaded file have no members of their own. -/
theorem members_self (h : Work.Loads config path text origin shift asked before after)
    {value : ValueId} (name : String) :
    after.program.store.place? after.program.locals (.property (value.move shift) name) =
      none := by
  simp only [Store.place?, h.inside.embeds.own_value]
  cases hheld : (provision config path text).store.value? value with
  | none => rfl
  | some held =>
    obtain ⟨hmembers, _⟩ := h.inside.plain value held hheld
    simp [AbstractValue.move, hmembers]

/-! ### The files -/

/-- A place of another file is one of the store that was. -/
theorem leaves (h : Work.Loads config path text origin shift asked before after)
    (hready : Ready config before) (hother : other ≠ path) : Leaves other before after := by
  have hvariables : ∀ of : Variable, of.file = other →
      after.program.locals of = before.program.locals of := by
    rintro of rfl
    rw [h.locals, if_neg hother]
  refine ⟨h.get?_of_ne hother, ?_, ?_, ?_, ?_, ?_⟩
  · intro name hnone
    rw [h.lookup?] at hnone
    exact (Option.or_eq_none_iff.1 hnone).2
  · rw [h.importsObject?, if_neg hother]
  · rw [h.binding?, if_neg hother]
  · intro place hbelongs
    cases place with
    | ofVariable of => exact hvariables of hbelongs
    | member owner name =>
      simp only [Store.place?, Store.member?]
      rw [h.object? (hready.lt_object hbelongs)]
    | result function => cases hbelongs
    | property owner name =>
      obtain ⟨of, hfile, hof⟩ := hbelongs
      simp only [Store.place?]
      rw [h.value? (hready.sound.placed (.ofVariable of) owner hof)]
  · intro place value _ hplace
    have hvalue := h.value? (hready.sound.placed place value hplace)
    unfold Store.enumeration?
    rw [hvalue]
    exact ⟨Store.typesOf_of_value?_eq hvalue, rfl⟩

/-- Nothing is bound to the imports of the file. -/
theorem attached (h : Work.Loads config path text origin shift asked before after) :
    Attached config after path text := by
  have hobject : after.state.importsObject? path = none := by
    rw [h.importsObject?, if_pos rfl]
  have hbinding : after.state.binding? path = none := by
    rw [h.binding?, if_pos rfl]
  have hproperty : ∀ site ∈ sites config after.program path (parse text), ∀ name,
      after.program.store.place? after.program.locals (.property site.imports name) = none := by
    intro site hsite name
    obtain ⟨entry, _, hlocate⟩ := List.mem_filterMap.1 hsite
    obtain ⟨_, himports, _⟩ := locate?_eq_some hlocate
    rw [h.localValue?_self] at himports
    obtain ⟨value, _, hvalue⟩ := Option.map_eq_some_iff.1 himports
    rw [← hvalue]
    exact h.members_self name
  refine ⟨fun _ => hbinding, fun _ => hbinding, fun _ _ name _ => h.bound?_self name,
    fun name _ => h.bound?_self name, ?_, ?_, ?_, ?_, ?_, ?_⟩
  · intro object name hsome
    rw [hobject] at hsome
    cases hsome
  · intro object name hsome
    rw [hobject] at hsome
    cases hsome
  · intro site rest hsites name
    rw [h.bound?_self]
    exact hproperty site (by simp [hsites]) name
  · intro site rest hsites later hlater name
    exact hproperty later (by simp [hsites, hlater]) name
  · intro entry _ hleaves value hvalue
    left
    rw [h.localValue?_self] at hvalue
    obtain ⟨inner, hinner, rfl⟩ := Option.map_eq_some_iff.1 hvalue
    obtain ⟨inference, own, _, hown, _, _⟩ :=
      Inference.inferFile_sound Store.Sound.initial path (parse text)
    have hinference := provision_inference config hown
    rw [hinference] at hinner
    rw [h.inside.embeds.typesOf, typesOf_provision config hown hinner,
      hleaves.1 inference own inner hown hinner]
    rfl
  · intro _ _ _ _ _ name _ _ _ type htype
    rw [h.bound?_self] at htype
    cases htype

/-- A session stays ready when a file is loaded. -/
theorem ready (h : Work.Loads config path text origin shift asked before after)
    (hready : Ready config before) : Ready config after := by
  have hobjects : ∀ file object, after.state.importsObject? file = some object →
      before.state.importsObject? file = some object := by
    intro file object hobject
    rw [h.importsObject?] at hobject
    split at hobject
    · cases hobject
    · exact hobject
  refine ⟨h.sound hready.sound, ?_, ?_, ?_, ?_, ?_⟩
  · intro file source hsource
    by_cases hfile : file = path
    · subst hfile
      unfold Program.file? at hsource
      rw [h.get?_self] at hsource
      cases hsource
      exact ⟨text, rfl, h.attached⟩
    · unfold Program.file? at hsource
      rw [h.get?_of_ne hfile] at hsource
      obtain ⟨other, rfl, hattached⟩ := hready.loaded file source hsource
      exact ⟨other, rfl, hattached.leaves (h.leaves hready hfile)⟩
  · intro name type htype
    rw [h.lookup?] at htype
    rcases Option.or_eq_some_iff.1 htype with hown | ⟨_, hbefore⟩
    · obtain ⟨inner, hinner, rfl⟩ := Option.map_eq_some_iff.1 hown
      obtain ⟨entry, hentry, rfl⟩ := Option.map_eq_some_iff.1 hinner
      exact h.inside.embeds.lt_types (h.provided name entry hentry).1
    · exact Nat.lt_of_lt_of_le (hready.registered name type hbefore) h.types_le
  · intro file object hobject
    have hbefore := hobjects file object hobject
    rw [h.object? (hready.lt_object hbefore)]
    exact hready.object file object hbefore
  · intro first second object hfirst hsecond
    exact hready.apart first second object (hobjects first object hfirst)
      (hobjects second object hsecond)
  · intro file object name hobject hlookup
    have hbefore := hobjects file object hobject
    rw [h.lookup?] at hlookup
    rcases Option.or_eq_some_iff.1 hlookup with hown | ⟨_, hregistered⟩
    · obtain ⟨inner, _, rfl⟩ := Option.map_eq_some_iff.1 hown
      rcases h.new_type inner with ⟨hlt, hsame⟩ | hle
      · rw [hsame] at hbefore
        obtain ⟨found, hfound⟩ := Option.isSome_iff_exists.1 (hready.object file inner hbefore)
        exact absurd (hready.sound.le_of_object? hfound) (Nat.not_le.2 hlt)
      · exact absurd (hready.lt_object hbefore) (Nat.not_lt.2 hle)
    · exact hready.foreign file object name hbefore hregistered

end Work.Loads

end Capabilities.Resolver
