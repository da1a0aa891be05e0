import Capabilities.Proofs.Session.History
import Capabilities.Proofs.Session.Run
import Capabilities.Proofs.Types.Graph

/-!
# What loaded texts have left

Every load of a text has left a block of types in the store: those the text makes when it is
loaded into a session with no other, with ids of their own. The blocks lie one behind the other
and nothing that happens later changes them. Registered is what the last load of a text that
registers the name has made, and a loaded file is what the last load of its path has found.
-/

namespace Capabilities.Session

open Host Script Resolver Capabilities.Types Capabilities.Module

/-- A text that was loaded, and where its types and values begin. -/
structure Load where
  text : String × String
  shift : Shift

variable [Parser]

/-- What the text comes to in a session with no other. -/
def Load.provided (load : Load) (config : Config) : Provision :=
  provision config load.text.1 load.text.2

variable {config : Config} {load : Load} {loads : List Load} {work before after : Work}

/-! ### Blocks -/

/-- The types of a block are what they were made, hold what they were made to hold, and none of
    them stands for the imports of a file. -/
structure Load.Stands (config : Config) (load : Load) (work : Work) : Prop where
  sound : (load.provided config).store.Sound
    ((load.provided config).inference.locals load.text.1)
  provided : ∀ name entry, (load.provided config).registry.provider? name = some entry →
    entry.type.index < (load.provided config).store.types.size ∧ entry.origin = some load.text.1
  below : ∀ type : TypeId, type.index < (load.provided config).store.types.size →
    (type.move load.shift).index < work.program.store.types.size
  shape : ∀ type : TypeId, type.index < (load.provided config).store.types.size →
    work.program.store.type? (type.move load.shift) =
      ((load.provided config).store.type? type).map (·.move load.shift)
  member : ∀ type name value, (load.provided config).store.member? type name = some value →
    work.program.store.typesOf (value.move load.shift) =
      ((load.provided config).store.typesOf value).map (·.move load.shift)
  result : ∀ type value, (load.provided config).store.result? type = some value →
    work.program.store.typesOf (value.move load.shift) =
      ((load.provided config).store.typesOf value).map (·.move load.shift)
  foreign : ∀ type : TypeId, type.index < (load.provided config).store.types.size →
    ∀ file, work.state.importsObject? file ≠ some (type.move load.shift)

theorem Load.Stands.member? (h : load.Stands config work) {type : TypeId}
    (hlt : type.index < (load.provided config).store.types.size) (name : String) :
    work.program.store.member? (type.move load.shift) name =
      ((load.provided config).store.member? type name).map (·.move load.shift) := by
  unfold Store.member? Store.object?
  rw [h.shape type hlt]
  cases (load.provided config).store.type? type with
  | none => rfl
  | some shape =>
    cases shape with
    | object object => simp [TypeShape.move, ObjectType.move]
    | function function => rfl
    | primitive kind => rfl

theorem Load.Stands.result? (h : load.Stands config work) {type : TypeId}
    (hlt : type.index < (load.provided config).store.types.size) :
    work.program.store.result? (type.move load.shift) =
      ((load.provided config).store.result? type).map (·.move load.shift) := by
  unfold Store.result?
  rw [h.shape type hlt]
  cases (load.provided config).store.type? type with
  | none => rfl
  | some shape => cases shape <;> rfl

/-- Nothing outside a block can be reached from a type in it. -/
theorem Load.Stands.reaches (h : load.Stands config work) {type other : TypeId}
    (hlt : type.index < (load.provided config).store.types.size)
    (hreaches : work.program.store.Reaches (type.move load.shift) other) :
    ∃ inner : TypeId, inner.index < (load.provided config).store.types.size ∧
      other = inner.move load.shift := by
  induction hreaches with
  | self => exact ⟨type, hlt, rfl⟩
  | member _ hmember hheld ih =>
    obtain ⟨inner, hinner, rfl⟩ := ih
    rw [h.member? hinner] at hmember
    obtain ⟨value, hvalue, rfl⟩ := Option.map_eq_some_iff.1 hmember
    rw [h.member inner _ value hvalue] at hheld
    obtain ⟨next, hnext, rfl⟩ := List.mem_map.1 hheld
    exact ⟨next, h.sound.held value next hnext, rfl⟩
  | result _ hresult hheld ih =>
    obtain ⟨inner, hinner, rfl⟩ := ih
    rw [h.result? hinner] at hresult
    obtain ⟨value, hvalue, rfl⟩ := Option.map_eq_some_iff.1 hresult
    rw [h.result inner value hvalue] at hheld
    obtain ⟨next, hnext, rfl⟩ := List.mem_map.1 hheld
    exact ⟨next, h.sound.held value next hnext, rfl⟩

/-- A block stays if its types do. -/
theorem Load.Stands.stays (h : load.Stands config before)
    (htypes : ∀ type : TypeId, type.index < (load.provided config).store.types.size →
      Store.TypeStays (type.move load.shift) before.program.store after.program.store)
    (hle : before.program.store.types.size ≤ after.program.store.types.size)
    (hforeign : ∀ type : TypeId, type.index < (load.provided config).store.types.size →
      ∀ file, after.state.importsObject? file ≠ some (type.move load.shift)) :
    load.Stands config after := by
  refine ⟨h.sound, h.provided, fun type hlt => Nat.lt_of_lt_of_le (h.below type hlt) hle,
    ?_, ?_, ?_, hforeign⟩
  · intro type hlt
    rw [(htypes type hlt).shape]
    exact h.shape type hlt
  · intro type name value hvalue
    obtain ⟨object, hobject, _⟩ := Option.bind_eq_some_iff.1 hvalue
    have hlt := Store.lt_of_type? (Store.type?_of_object? _ hobject)
    rw [← h.member type name value hvalue]
    refine (htypes type hlt).member name _ ?_
    rw [h.member? hlt, hvalue]
    rfl
  · intro type value hvalue
    obtain ⟨function, hshape, _⟩ := Store.type?_of_result? _ hvalue
    have hlt := Store.lt_of_type? hshape
    rw [← h.result type value hvalue]
    refine (htypes type hlt).result _ ?_
    rw [h.result? hlt, hvalue]
    rfl

/-- Loading a text adds its block. -/
theorem stands_of_loads {path text : String} {origin : Option String} {shift : Shift}
    {asked : List PendingFile} (h : Work.Loads config path text origin shift asked before after)
    (hready : Ready config before) : (⟨(path, text), shift⟩ : Load).Stands config after := by
  refine ⟨h.inside.sound, h.provided, fun type hlt => h.inside.embeds.lt_types hlt,
    fun type _ => h.inside.embeds.own_type type, fun _ _ value _ => h.inside.embeds.typesOf value,
    fun _ value _ => h.inside.embeds.typesOf value, ?_⟩
  intro type _ file hobject
  rw [h.importsObject?] at hobject
  split at hobject
  · cases hobject
  have hlt := hready.lt_object hobject
  rcases h.new_type type with ⟨hprimitive, hsame⟩ | hle
  · rw [hsame] at hobject
    obtain ⟨object, hfound⟩ := Option.isSome_iff_exists.1 (hready.object file type hobject)
    exact absurd (hready.sound.le_of_object? hfound) (Nat.not_le.2 hprimitive)
  · exact absurd hlt (Nat.not_lt.2 hle)

/-- Loading a text leaves all types that were there alone. -/
theorem typeStays_of_loads {path text : String} {origin : Option String} {shift : Shift}
    {asked : List PendingFile} (h : Work.Loads config path text origin shift asked before after)
    (hready : Ready config before) {type : TypeId}
    (hlt : type.index < before.program.store.types.size) :
    Store.TypeStays type before.program.store after.program.store := by
  refine ⟨h.type? hlt, ?_, ?_⟩
  · intro name value hvalue
    have hplaced := hready.sound.placed (.member type name) value hvalue
    exact Store.typesOf_of_value?_eq (h.value? hplaced)
  · intro value hvalue
    have hplaced := hready.sound.placed (.result type) value hvalue
    exact Store.typesOf_of_value?_eq (h.value? hplaced)

theorem Load.Stands.later {path text : String} {origin : Option String} {shift : Shift}
    {asked : List PendingFile} (hstands : load.Stands config before)
    (h : Work.Loads config path text origin shift asked before after)
    (hready : Ready config before) : load.Stands config after := by
  refine hstands.stays (fun type hlt => typeStays_of_loads h hready (hstands.below type hlt))
    h.types_le ?_
  intro type hlt file hobject
  rw [h.importsObject?] at hobject
  split at hobject
  · cases hobject
  · exact hstands.foreign type hlt file hobject

theorem Load.Stands.preserves (hstands : load.Stands config before)
    (h : Preserves before after) : load.Stands config after := by
  have hforeign : ∀ type : TypeId, type.index < (load.provided config).store.types.size →
      ∀ file, after.state.importsObject? file ≠ some (type.move load.shift) := by
    intro type hlt file hobject
    rcases h.fresh file _ hobject with hbefore | hle
    · exact hstands.foreign type hlt file hbefore
    · exact absurd (hstands.below type hlt) (Nat.not_lt.2 hle)
  exact hstands.stays (fun type hlt => h.types _ (hstands.below type hlt) (hforeign type hlt))
    h.types_le hforeign

/-! ### The chronicle -/

def lastLoad (loads : List Load) (path : String) : Option Load :=
  loads.reverse.find? (·.text.1 == path)

def latest (config : Config) (loads : List Load) (name : String) : Option Load :=
  loads.reverse.find? (registers config ·.text name)

omit [Parser] in
theorem lastLoad_append (loads : List Load) (load : Load) (path : String) :
    lastLoad (loads ++ [load]) path = if load.text.1 = path then some load
      else lastLoad loads path := by
  unfold lastLoad
  rw [List.reverse_append, List.reverse_singleton, List.singleton_append, List.find?_cons]
  by_cases h : load.text.1 = path
  · simp [h]
  · simp [beq_eq_false_iff_ne.2 h, h]

theorem latest_append (config : Config) (loads : List Load) (load : Load) (name : String) :
    latest config (loads ++ [load]) name = if registers config load.text name then some load
      else latest config loads name := by
  unfold latest
  rw [List.reverse_append, List.reverse_singleton, List.singleton_append, List.find?_cons]
  cases registers config load.text name <;> rfl

omit [Parser] in
theorem map_lastLoad (loads : List Load) (path : String) :
    (lastLoad loads path).map (·.text.2) = lastText (loads.map Load.text) path := by
  induction loads using List.reverseRecOn with
  | nil => rfl
  | append_singleton loads load ih =>
    rw [lastLoad_append, List.map_append, List.map_singleton, lastText_append]
    by_cases h : load.text.1 = path
    · rw [if_pos h, if_pos h.symm]
      rfl
    · rw [if_neg h, if_neg (Ne.symm h), ih]

theorem map_latest (config : Config) (loads : List Load) (name : String) :
    (latest config loads name).map Load.text = source config (loads.map Load.text) name := by
  unfold latest source
  rw [← List.map_reverse, List.find?_map]
  rfl

/-- A variable's value holds what inference made it hold, and nothing else was put into it. -/
structure Load.Untouched (config : Config) (load : Load) (work : Work) (value : ValueId) :
    Prop where
  types : work.program.store.typesOf (value.move load.shift) =
    ((load.provided config).store.typesOf value).map (·.move load.shift)
  enumeration : work.program.store.enumeration? (value.move load.shift) = none
  property : ∀ name, work.program.store.place? work.program.locals
    (.property (value.move load.shift) name) = none

/-- The types of a block lie before those of another one's own. -/
def Load.Before (config : Config) (first second : Load) : Prop :=
  ∀ type : TypeId, type.index < (first.provided config).store.types.size →
    (type.move first.shift).index < second.shift.types

/-- What the loads so far have left in a session. -/
structure Recorded (config : Config) (loads : List Load) (work : Work) : Prop where
  stands : ∀ load ∈ loads, load.Stands config work
  apart : loads.Pairwise (Load.Before config)
  registry : ∀ name, work.state.registry.provider? name =
    (latest config loads name).bind fun load =>
      ((load.provided config).registry.provider? name).map (·.move load.shift)
  texts : (work.program.files.entries.map fun entry => (entry.1, entry.2.source.text)) =
    (settle (loads.map Load.text)).filter fun text => work.program.isLoaded text.1
  file : ∀ path loaded, work.program.files.get? path = some loaded →
    ∃ load, lastLoad loads path = some load ∧ loaded.source = .ofText path load.text.2 ∧
      loaded.inference = (load.provided config).inference.move load.shift
  quiet : ∀ path load, work.program.isLoaded path = true → lastLoad loads path = some load →
    (declaration .consumes config.entryNames (parse load.text.2)).names? = none →
    ∀ scope name value, (load.provided config).inference.scopes.own? scope name = some value →
      load.Untouched config work value

theorem Recorded.localValue? (h : Recorded config loads work) {path : String} {loaded : LoadedFile}
    (hloaded : work.program.files.get? path = some loaded)
    (hload : lastLoad loads path = some load) (scope : ScopeId) (name : String) :
    work.program.localValue? path scope name =
      ((load.provided config).inference.scopes.own? scope name).map (·.move load.shift) := by
  obtain ⟨other, hother, _, hinference⟩ := h.file path loaded hloaded
  rw [hload] at hother
  cases hother
  unfold Program.localValue?
  rw [hloaded, Option.bind_some, hinference]
  exact Inference.FileInference.own?_move load.shift _ scope name

/-- What was registered once stays registered. -/
theorem Recorded.isSome_provider? (h : Recorded config loads work) {name : String}
    (hload : load ∈ loads) (hregisters : registers config load.text name = true) :
    (work.state.registry.provider? name).isSome = true := by
  rw [h.registry]
  cases hlatest : latest config loads name with
  | none =>
    have hnone := List.find?_eq_none.1 hlatest load (List.mem_reverse.2 hload)
    exact absurd hregisters hnone
  | some last =>
    unfold latest at hlatest
    have hlast := List.find?_some hlatest
    rw [Option.bind_some, Option.isSome_map]
    exact hlast

/-- No imports object can be reached from a registered type. -/
theorem Recorded.foreign (h : Recorded config loads work) {name : String} {type other : TypeId}
    (hregistered : work.state.registry.lookup? name = some type)
    (hreaches : work.program.store.Reaches type other) (file : String) :
    work.state.importsObject? file ≠ some other := by
  obtain ⟨entry, hentry, rfl⟩ := Option.map_eq_some_iff.1 hregistered
  rw [h.registry] at hentry
  obtain ⟨load, hload, hprovided⟩ := Option.bind_eq_some_iff.1 hentry
  obtain ⟨own, hown, rfl⟩ := Option.map_eq_some_iff.1 hprovided
  have hmem : load ∈ loads := List.mem_reverse.1 (List.mem_of_find?_eq_some hload)
  have hstands := h.stands load hmem
  obtain ⟨inner, hinner, rfl⟩ := hstands.reaches (hstands.provided name own hown).1 hreaches
  exact hstands.foreign inner hinner file

/-- What is left alone stays untouched. -/
theorem Recorded.untouched (h : Recorded config loads before) {path : String}
    (hisLoaded : before.program.isLoaded path = true) (hload : lastLoad loads path = some load)
    (hleaves : Leaves path before after) {scope : ScopeId} {name : String} {value : ValueId}
    (hvalue : (load.provided config).inference.scopes.own? scope name = some value)
    (huntouched : load.Untouched config before value) : load.Untouched config after value := by
  obtain ⟨loaded, hloaded⟩ := Option.isSome_iff_exists.1 hisLoaded
  have hvariable : before.program.locals ⟨path, scope, name⟩ = some (value.move load.shift) := by
    refine (h.localValue? hloaded hload scope name).trans ?_
    rw [hvalue]
    rfl
  obtain ⟨htypes, henumeration⟩ := hleaves.held (.ofVariable ⟨path, scope, name⟩) _ rfl hvariable
  refine ⟨htypes.trans huntouched.types, henumeration.trans huntouched.enumeration, ?_⟩
  intro property
  exact (hleaves.place (.property (value.move load.shift) property)
    ⟨⟨path, scope, name⟩, rfl, hvariable⟩).trans (huntouched.property property)

/-! ### What is recorded stays recorded -/

theorem Recorded.start (config : Config) (table : PathTable) :
    Recorded config [] ⟨.initial, .initial, table⟩ := by
  refine ⟨fun load hload => ?_, .nil, fun name => rfl, rfl, fun path loaded hloaded => ?_,
    fun path load hisLoaded => ?_⟩
  · cases hload
  · cases hloaded
  · cases hisLoaded

/-- Steps that leave the loaded files alone. -/
theorem Recorded.keeps (h : Recorded config loads before) (hpreserves : Preserves before after)
    (hregistry : after.state.registry = before.state.registry)
    (hfiles : after.program.files = before.program.files)
    (hleaves : ∀ path load, before.program.isLoaded path = true →
      lastLoad loads path = some load →
      (declaration .consumes config.entryNames (parse load.text.2)).names? = none →
      Leaves path before after) : Recorded config loads after := by
  have hisLoaded : after.program.isLoaded = before.program.isLoaded := by
    funext path
    unfold Program.isLoaded
    rw [hfiles]
  refine ⟨fun load hload => (h.stands load hload).preserves hpreserves, h.apart, ?_, ?_, ?_, ?_⟩
  · rw [hregistry]
    exact h.registry
  · rw [hfiles, hisLoaded]
    exact h.texts
  · rw [hfiles]
    exact h.file
  · rw [hisLoaded]
    intro path load hloaded hload hnone scope name value hvalue
    exact h.untouched hloaded hload (hleaves path load hloaded hload hnone) hvalue
      (h.quiet path load hloaded hload hnone scope name value hvalue)

theorem Recorded.requeue (h : Recorded config loads work) (queue : List PendingFile)
    (failed : List String) :
    Recorded config loads
      { work with program := { work.program with queue := queue, failed := failed } } := by
  refine h.keeps ⟨fun _ _ => id, fun _ _ => Or.inl, fun type _ _ => .refl type _, Nat.le_refl _⟩
    rfl rfl ?_
  intro path load _ _ _
  exact ⟨rfl, fun _ => id, rfl, rfl, fun _ _ => rfl, fun _ _ _ _ => ⟨rfl, rfl⟩⟩

theorem Recorded.pass (h : Recorded config loads work) (hready : Ready config work) (mail : Mail) :
    Recorded config loads (bindProgram config mail work) := by
  obtain ⟨_, hadvances, hpreserves, _, hfiles⟩ := hready.bindProgram mail
  refine h.keeps hpreserves hadvances.registry hadvances.files ?_
  intro path load hisLoaded hload hnone
  obtain ⟨loaded, hloaded⟩ := Option.isSome_iff_exists.1 hisLoaded
  obtain ⟨other, hother, hsource, _⟩ := h.file path loaded hloaded
  rw [hload] at hother
  cases hother
  refine (hfiles path load.text.2 ?_).2.leaves hnone
  unfold Program.file?
  rw [hloaded, Option.map_some, hsource]

theorem Recorded.update (h : Recorded config loads work) (path fresh : String) :
    Recorded config loads { work with program := work.program.updateFile path fresh } := by
  let after : Work := { work with program := work.program.updateFile path fresh }
  have hget : ∀ other, after.program.files.get? other =
      if other = path then none else work.program.files.get? other :=
    fun other => Keyed.get?_erase _ _ _
  have hother : ∀ other loaded, after.program.files.get? other = some loaded →
      other ≠ path ∧ work.program.files.get? other = some loaded := by
    intro other loaded hloaded
    rw [hget] at hloaded
    split at hloaded
    · cases hloaded
    · rename_i hne
      exact ⟨hne, hloaded⟩
  have hpreserves : Preserves work after :=
    ⟨fun _ _ => id, fun _ _ => Or.inl, fun type _ _ => .refl type _, Nat.le_refl _⟩
  refine ⟨fun load hload => (h.stands load hload).preserves hpreserves, h.apart, h.registry, ?_,
    fun other loaded hloaded => h.file other loaded (hother other loaded hloaded).2, ?_⟩
  · have herase : after.program.files.entries.map (fun entry => (entry.1, entry.2.source.text)) =
        (work.program.files.entries.map fun entry => (entry.1, entry.2.source.text)).filter
          fun text => text.1 != path := by
      rw [List.filter_map]
      rfl
    rw [herase, h.texts, List.filter_filter]
    congr 1
    funext text
    exact (work.program.isLoaded_updateFile path fresh text.1).symm
  · intro other load hisLoaded hload hnone scope name value hvalue
    have hbefore := Bool.and_eq_true_iff.1
      ((work.program.isLoaded_updateFile path fresh other).symm.trans hisLoaded)
    obtain ⟨htypes, henumeration, hproperty⟩ :=
      h.quiet other load hbefore.2 hload hnone scope name value hvalue
    exact ⟨htypes, henumeration, hproperty⟩

theorem Recorded.append {path text : String} {origin : Option String} {shift : Shift}
    {asked : List PendingFile} (h : Recorded config loads before) (hready : Ready config before)
    (hunloaded : before.program.isLoaded path = false)
    (hloads : Work.Loads config path text origin shift asked before after) :
    Recorded config (loads ++ [⟨(path, text), shift⟩]) after := by
  let load : Load := ⟨(path, text), shift⟩
  refine ⟨?_, ?_, ?_, ?_, ?_, ?_⟩
  · intro other hother
    rcases List.mem_append.1 hother with hother | hother
    · exact (h.stands other hother).later hloads hready
    · rw [List.mem_singleton.1 hother]
      exact stands_of_loads hloads hready
  · rw [List.pairwise_append]
    refine ⟨h.apart, List.pairwise_singleton _ _, ?_⟩
    intro first hfirst second hsecond type hlt
    rw [List.mem_singleton.1 hsecond]
    exact Nat.lt_of_lt_of_eq ((h.stands first hfirst).below type hlt)
      hloads.inside.embeds.base_types
  · intro name
    rw [hloads.registry, latest_append]
    unfold registers
    cases hprovided : (provision config path text).registry.provider? name with
    | none => simpa using h.registry name
    | some entry => simp [Load.provided, hprovided]
  · rw [hloads.files, Keyed.put_of_get?_none _ (Program.get?_of_unloaded hunloaded),
      List.map_append, h.texts,
      show (loads ++ [load]).map Load.text = loads.map Load.text ++ [load.text] by simp,
      settle_append, List.filter_append, List.filter_filter]
    have hlast : [load.text].filter (fun text => after.program.isLoaded text.1) = [load.text] := by
      rw [List.filter_singleton, hloads.isLoaded]
      simp [load]
    rw [hlast]
    congr 2
    funext other
    rw [hloads.isLoaded]
    by_cases heq : other.1 = path
    · simp [load, heq, hunloaded]
    · simp [load, beq_eq_false_iff_ne.2 heq, heq]
  · intro other loaded hloaded
    by_cases heq : other = path
    · subst heq
      rw [hloads.get?_self] at hloaded
      cases hloaded
      refine ⟨load, ?_, rfl, rfl⟩
      rw [lastLoad_append, if_pos rfl]
    · rw [hloads.get?_of_ne heq] at hloaded
      obtain ⟨former, hformer, hsource, hinference⟩ := h.file other loaded hloaded
      refine ⟨former, ?_, hsource, hinference⟩
      rw [lastLoad_append, if_neg (Ne.symm heq), hformer]
  · intro other former hisLoaded hformer hnone scope name value hvalue
    rw [lastLoad_append] at hformer
    split at hformer
    · cases hformer
      refine ⟨hloads.inside.embeds.typesOf value, ?_, fun property => hloads.members_self property⟩
      unfold Store.enumeration?
      rw [hloads.inside.embeds.own_value]
      cases hheld : (provision config path text).store.value? value with
      | none => rfl
      | some held => exact (hloads.inside.plain value held hheld).2
    · rename_i hne
      have hother : other ≠ path := Ne.symm hne
      rw [hloads.isLoaded, beq_eq_false_iff_ne.2 hother, Bool.false_or] at hisLoaded
      exact h.untouched hisLoaded hformer (hloads.leaves hready hother) hvalue
        (h.quiet other former hisLoaded hformer hnone scope name value hvalue)

/-- The texts of a history were loaded one after the other. -/
def Chronicle (config : Config) (history : List (String × String)) (work : Work) : Prop :=
  ∃ loads : List Load, loads.map Load.text = history ∧ Recorded config loads work

/-- The chronicle of a session is kept. -/
theorem invariant_chronicle (config : Config) : Invariant config (Chronicle config) := by
  refine ⟨⟨?_, ?_, ?_, ?_⟩, fun table => ⟨[], rfl, .start config table⟩⟩
  · rintro _ work queue failed ⟨loads, rfl, hrecorded⟩
    exact ⟨loads, rfl, hrecorded.requeue queue failed⟩
  · rintro _ path text origin shift asked before after hready hunloaded hloads
      ⟨loads, rfl, hrecorded⟩
    refine ⟨loads ++ [⟨(path, text), shift⟩], ?_, hrecorded.append hready hunloaded hloads⟩
    rw [List.map_append, List.map_singleton]
  · rintro _ work path text _ ⟨loads, rfl, hrecorded⟩
    exact ⟨loads, rfl, hrecorded.update path text⟩
  · rintro _ work mail hready ⟨loads, rfl, hrecorded⟩
    exact ⟨loads, rfl, hrecorded.pass hready mail⟩

end Capabilities.Session
