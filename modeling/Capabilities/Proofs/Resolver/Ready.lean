import Capabilities.Proofs.Resolver.Invariant

/-!
# Steps between which every file is attached

`Ready` gathers what holds of a session between two passes. A step of a pass concerns one file: it
*advances* the work, by queueing files, reporting problems and writing to places of that file, and
keeps all others. So being ready is carried on by looking at the one file only. What it takes away
is said by `Retains`: values that are no members lose a type only when it was bound to a name they
stand for and is so no longer.
-/

namespace Capabilities.Resolver

open Host Script Session Capabilities.Types Capabilities.Module

variable {config : Config} {mail : Mail} {wanted : PendingFile → Prop} {file text : String}
  {before middle after work : Work}

/-! ### Leaving other files alone -/

/-- A file is kept by whatever writes to none of its places. -/
theorem Keeps.of_touches {writes : Place → Prop} {object : TypeId}
    (hadvances : before.Advances mail wanted after)
    (hobject : after.state.importsObject? file = before.state.importsObject? file)
    (hbinding : after.state.binding? file = before.state.binding? file)
    (hstage : after.state.stages.get? file = before.state.stages.get? file)
    (hsound : before.program.store.Sound before.program.locals)
    (htouches : Store.Touches before.program.locals writes object before.program.store
      after.program.store)
    (hout : ∀ place, Belongs before file place → ¬writes place) :
    Keeps mail file before after := by
  have hleaves : Leaves file before after := by
    refine ⟨?_, ?_, hobject, hbinding, ?_, ?_⟩
    · rw [hadvances.files]
    · rw [hadvances.registry]
      exact fun _ => id
    · intro place hbelongs
      rw [hadvances.locals]
      exact htouches.place?_outside (hout place hbelongs)
    · intro place value hbelongs hplace
      exact htouches.types_outside hsound hplace (hout place hbelongs)
  exact ⟨hleaves, hadvances.registry, hstage, hadvances.file,
    fun _ _ _ hhandled => hhandled.advances hadvances⟩

/-! ### Being ready -/

/-- What every session keeps between two passes. -/
structure Ready [Parser] (config : Config) (work : Work) : Prop where
  sound : work.program.store.Sound work.program.locals
  loaded : ∀ file source, work.program.file? file = some source →
    ∃ text, source = .ofText file text ∧ Attached config work file text
  registered : ∀ name type, work.state.registry.lookup? name = some type →
    type.index < work.program.store.types.size
  object : ∀ file object, work.state.importsObject? file = some object →
    (work.program.store.object? object).isSome = true
  apart : ∀ first second object, work.state.importsObject? first = some object →
    work.state.importsObject? second = some object → first = second
  foreign : ∀ file object name, work.state.importsObject? file = some object →
    work.state.registry.lookup? name ≠ some object

theorem Ready.attached [Parser] (h : Ready config work)
    (hfile : work.program.file? file = some (.ofText file text)) :
    Attached config work file text := by
  obtain ⟨other, hother, hattached⟩ := h.loaded file _ hfile
  cases hother
  exact hattached

theorem Ready.lt_object [Parser] {object : TypeId} (h : Ready config work)
    (hobject : work.state.importsObject? file = some object) :
    object.index < work.program.store.types.size := by
  obtain ⟨shape, hshape⟩ := Option.isSome_iff_exists.1 (h.object file object hobject)
  exact Store.lt_of_type? (Store.type?_of_object? _ hshape)

/-- Every loaded file is attached after a step that keeps all files but one, if that one is. -/
theorem Ready.loaded_of [Parser] (h : Ready config before)
    (hadvances : before.Advances mail wanted after)
    (hkeeps : ∀ other, other ≠ file → Keeps mail other before after)
    (hfile : ∀ text, Attached config before file text →
      before.program.file? file = some (.ofText file text) → Attached config after file text) :
    ∀ other source, after.program.file? other = some source →
      ∃ text, source = .ofText other text ∧ Attached config after other text := by
  intro other source hsource
  have hbefore : before.program.file? other = some source := by
    rw [← hsource]
    unfold Program.file?
    rw [hadvances.files]
  obtain ⟨text, rfl, hattached⟩ := h.loaded other source hbefore
  refine ⟨text, rfl, ?_⟩
  by_cases hother : other = file
  · subst hother
    exact hfile text hattached hbefore
  · exact hattached.leaves (hkeeps other hother).toLeaves

/-- A step that makes no imports object. -/
theorem Ready.touch [Parser] {writes : Place → Prop} {object : TypeId} (h : Ready config before)
    (hadvances : before.Advances mail wanted after)
    (hobjects : after.state.importsObjects = before.state.importsObjects)
    (hsound : after.program.store.Sound after.program.locals)
    (htouches : Store.Touches before.program.locals writes object before.program.store
      after.program.store)
    (hkeeps : ∀ other, other ≠ file → Keeps mail other before after)
    (hfile : ∀ text, Attached config before file text →
      before.program.file? file = some (.ofText file text) → Attached config after file text) :
    Ready config after := by
  have hsame : ∀ other, after.state.importsObject? other = before.state.importsObject? other := by
    intro other
    unfold State.importsObject?
    rw [hobjects]
  refine ⟨hsound, h.loaded_of hadvances hkeeps hfile, ?_, ?_, ?_, ?_⟩
  · intro name type htype
    rw [hadvances.registry] at htype
    rw [htouches.types_size]
    exact h.registered name type htype
  · intro other type htype
    rw [hsame] at htype
    exact htouches.isSome_object? (h.object other type htype)
  · intro first second type hfirst hsecond
    rw [hsame] at hfirst hsecond
    exact h.apart first second type hfirst hsecond
  · intro other type name htype
    rw [hsame] at htype
    rw [hadvances.registry]
    exact h.foreign other type name htype

/-! ### Steps that concern one file -/

/-- Imports objects stay, new ones are new types, and every type that has not become one stays. -/
structure Preserves (before after : Work) : Prop where
  objects : ∀ file object, before.state.importsObject? file = some object →
    after.state.importsObject? file = some object
  fresh : ∀ file object, after.state.importsObject? file = some object →
    before.state.importsObject? file = some object ∨
      before.program.store.types.size ≤ object.index
  types : ∀ type, type.index < before.program.store.types.size →
    (∀ file, after.state.importsObject? file ≠ some type) →
    Store.TypeStays type before.program.store after.program.store
  types_le : before.program.store.types.size ≤ after.program.store.types.size

theorem Preserves.refl (work : Work) : Preserves work work :=
  ⟨fun _ _ => id, fun _ _ => Or.inl, fun type _ _ => .refl type _, Nat.le_refl _⟩

theorem Preserves.trans (h : Preserves before middle) (h' : Preserves middle after) :
    Preserves before after := by
  refine ⟨fun file object hobject => h'.objects file object (h.objects file object hobject), ?_, ?_,
    Nat.le_trans h.types_le h'.types_le⟩
  · intro file object hobject
    rcases h'.fresh file object hobject with hmiddle | hle
    · exact h.fresh file object hmiddle
    · exact Or.inr (Nat.le_trans h.types_le hle)
  intro type hlt hforeign
  refine (h.types type hlt ?_).trans (h'.types type (Nat.lt_of_lt_of_le hlt h.types_le) hforeign)
  intro file hfile
  exact hforeign file (h'.objects file type hfile)

/-- A value is none of the members that passes write to. -/
def NoMember (work : Work) (value : ValueId) : Prop :=
  Store.Outside work.program.locals
    (memberOf fun owner => ∃ file, work.state.importsObject? file = some owner)
    work.program.store value

/-- A file declares that it consumes a name, and a variable of its first entry function is given
    to the import of that name. -/
def StandsFor [Parser] (config : Config) (program : Program) (file : String) (value : ValueId)
    (name : String) : Prop :=
  ∃ text names site rest, program.file? file = some (.ofText file text) ∧
    (declaration .consumes config.entryNames (parse text)).names? = some names ∧ name ∈ names ∧
    Resolver.sites config program file (parse text) = site :: rest ∧ value ∈ named site name

/-- Names are bound to what is registered or stay bound, and a value that is no member keeps its
    types, except for one that is taken back from a name the value stands for. -/
structure Retains [Parser] (config : Config) (before after : Work) : Prop where
  noMember : ∀ value, NoMember before value → NoMember after value
  bound : ∀ file name, after.state.bound? file name = before.state.bound? file name ∨
    after.state.bound? file name = before.state.registry.lookup? name
  held : ∀ value type, NoMember before value → type ∈ before.program.store.typesOf value →
    (∀ file name, StandsFor config before.program file value name →
      before.state.bound? file name = some type → after.state.bound? file name = some type) →
    type ∈ after.program.store.typesOf value

theorem Retains.refl [Parser] (config : Config) (work : Work) : Retains config work work :=
  ⟨fun _ => id, fun _ _ => Or.inl rfl, fun _ _ _ hheld _ => hheld⟩

theorem StandsFor.of_get? [Parser] {first second : Program} {value : ValueId} {name : String}
    (h : StandsFor config first file value name)
    (hsame : second.files.get? file = first.files.get? file) :
    StandsFor config second file value name := by
  obtain ⟨text, names, site, rest, hfile, hnames, hname, hsites, hvalue⟩ := h
  refine ⟨text, names, site, rest, ?_, hnames, hname, ?_, hvalue⟩
  · unfold Program.file?
    rw [hsame]
    exact hfile
  · rw [← hsites]
    exact sites_of_get? _ hsame

theorem Retains.trans [Parser] (h : Retains config before middle) (h' : Retains config middle after)
    (hadvances : before.Advances mail wanted middle) : Retains config before after := by
  have hregistry : middle.state.registry = before.state.registry := hadvances.registry
  have hlater : ∀ file name, after.state.bound? file name = middle.state.bound? file name ∨
      after.state.bound? file name = before.state.registry.lookup? name := by
    intro file name
    rw [← hregistry]
    exact h'.bound file name
  refine ⟨fun value hvalue => h'.noMember value (h.noMember value hvalue), ?_, ?_⟩
  · intro file name
    rcases hlater file name with hsame | hlookup
    · rw [hsame]
      exact h.bound file name
    · exact Or.inr hlookup
  · intro value type hvalue hheld hkept
    -- what is registered is the same all the time, so a type that is bound in the end and was
    -- bound in the beginning is bound in between
    refine h'.held value type (h.noMember value hvalue) (h.held value type hvalue hheld ?_) ?_
    · intro file name hstands hbound
      have hafter := hkept file name hstands hbound
      rcases h.bound file name with hsame | hlookup
      · rw [hsame, hbound]
      · rcases hlater file name with hsame | hlookup'
        · rw [← hsame, hafter]
        · rw [hlookup, ← hlookup', hafter]
    · intro file name hstands hbound
      have hbefore : StandsFor config before.program file value name :=
        hstands.of_get? (by rw [hadvances.files])
      rcases hlater file name with hsame | hlookup
      · rw [hsame, hbound]
      · rcases h.bound file name with hsame | hlookup'
        · exact hkept file name hbefore (hsame.symm.trans hbound)
        · rw [hlookup, ← hlookup', hbound]

/-- Nothing is taken back as long as bindings stay and values only get types. -/
theorem Retains.grows [Parser] (h : Retains config before middle)
    (hnoMember : ∀ value, NoMember middle value → NoMember after value)
    (hbound : ∀ file name, after.state.bound? file name = middle.state.bound? file name)
    (hgrows : ∀ value type, type ∈ middle.program.store.typesOf value →
      type ∈ after.program.store.typesOf value) : Retains config before after := by
  refine ⟨fun value hvalue => hnoMember value (h.noMember value hvalue), ?_, ?_⟩
  · intro file name
    rw [hbound]
    exact h.bound file name
  · intro value type hvalue hheld hkept
    refine hgrows value type (h.held value type hvalue hheld ?_)
    intro file name hstands hbefore
    rw [← hbound]
    exact hkept file name hstands hbefore

/-- What is no member stays so when no imports object is made and places get new values only. -/
theorem NoMember.touches {writes : Place → Prop} {object : TypeId} {value : ValueId}
    (h : NoMember before value)
    (hobjects : after.state.importsObjects = before.state.importsObjects)
    (hlocals : after.program.locals = before.program.locals)
    (htouches : Store.Touches before.program.locals writes object before.program.store
      after.program.store) : NoMember after value := by
  unfold NoMember State.importsObject?
  rw [hobjects, hlocals]
  exact htouches.outside h

/-- The work has come from `before` by steps that concern one file, and is ready again. -/
structure Concerns [Parser] (config : Config) (mail : Mail) (wanted : PendingFile → Prop)
    (file : String) (before after : Work) : Prop where
  advances : before.Advances mail wanted after
  keeps : ∀ other, other ≠ file → Keeps mail other before after
  preserves : Preserves before after
  retains : Retains config before after
  ready : Ready config after

theorem Concerns.refl [Parser] (mail : Mail) (wanted : PendingFile → Prop) (file : String)
    (h : Ready config work) : Concerns config mail wanted file work work :=
  ⟨.refl mail wanted work, fun other _ => .refl mail other work, .refl work, .refl config work, h⟩

theorem Concerns.trans [Parser] (h : Concerns config mail wanted file before middle)
    (h' : Concerns config mail wanted file middle after) :
    Concerns config mail wanted file before after :=
  ⟨h.advances.trans h'.advances, fun other hother => (h.keeps other hother).trans
    (h'.keeps other hother), h.preserves.trans h'.preserves,
    h.retains.trans h'.retains h.advances, h'.ready⟩

/-- Writing to places of a file preserves what is no imports object. -/
theorem Preserves.of_touches {writes : Place → Prop} {object : TypeId}
    (hobjects : after.state.importsObjects = before.state.importsObjects)
    (hsound : before.program.store.Sound before.program.locals)
    (htouches : Store.Touches before.program.locals writes object before.program.store
      after.program.store)
    (hforeign : ∀ type, (∀ file, after.state.importsObject? file ≠ some type) →
      type ≠ object ∧ (∀ name, ¬writes (.member type name)) ∧ ¬writes (.result type)) :
    Preserves before after := by
  have hsame : ∀ file, after.state.importsObject? file = before.state.importsObject? file :=
    fun file => congrArg (fun table : Keyed TypeId => table.get? file) hobjects
  refine ⟨fun file object hobject => (hsame file).trans hobject,
    fun file object hobject => Or.inl ((hsame file).symm.trans hobject), ?_,
    Nat.le_of_eq htouches.types_size.symm⟩
  · intro type _ hnone
    obtain ⟨hobject, hmember, hresult⟩ := hforeign type hnone
    exact htouches.typeStays hsound hobject hmember hresult

theorem Concerns.file? [Parser] (h : Concerns config mail wanted file before after)
    (other : String) : after.program.file? other = before.program.file? other := by
  unfold Program.file?
  rw [h.advances.files]

theorem Concerns.sites [Parser] (h : Concerns config mail wanted file before after) (other : String)
    (root : Node) :
    Resolver.sites config after.program other root =
      Resolver.sites config before.program other root :=
  sites_of_get? root (congrArg (fun table : Keyed LoadedFile => table.get? other) h.advances.files)

/-! ### Making the imports object -/

theorem importsObject?_setImportsObject (state : State) (other : String) (object : TypeId) :
    (state.setImportsObject file object).importsObject? other =
      if other = file then some object else state.importsObject? other :=
  Keyed.get?_put _ _ _ _

/-- The work with an imports object for a file that has none yet. -/
def Work.withImportsObject (work : Work) (file : String) : Work :=
  { work.withStore (work.program.store.newObject (some importsParameter) (some file)).2 with
    state := work.state.setImportsObject file ⟨work.program.store.types.size⟩ }

theorem Work.advances_withImportsObject (mail : Mail) (wanted : PendingFile → Prop) (work : Work)
    (file : String) : work.Advances mail wanted (work.withImportsObject file) :=
  ⟨⟨[], by simp, by rw [List.append_nil]; rfl⟩, rfl, fun _ => id, fun _ => id, id, Or.inl rfl,
    fun horderly => horderly.of_same rfl rfl⟩

theorem member?_newObject (store : Store) (made origin : Option String) (name : String) :
    (store.newObject made origin).2.member? ⟨store.types.size⟩ name = none := by
  simp [Store.newObject, Store.member?, Store.object?, Store.type?_pushType]

theorem object?_newObject_of_lt {store : Store} {object : TypeId} (made origin : Option String)
    (h : object.index < store.types.size) :
    (store.newObject made origin).2.object? object = store.object? object := by
  unfold Store.object? Store.newObject
  rw [Store.type?_pushType_of_lt h]

theorem Work.preserves_withImportsObject (work : Work)
    (hnone : work.state.importsObject? file = none) :
    Preserves work (work.withImportsObject file) := by
  refine ⟨?_, ?_, ?_, ?_⟩
  · intro other object hobject
    refine (importsObject?_setImportsObject _ _ _).trans ?_
    rw [if_neg, hobject]
    rintro rfl
    rw [hnone] at hobject
    cases hobject
  · intro other object hobject
    have hset := (importsObject?_setImportsObject work.state other
      ⟨work.program.store.types.size⟩).symm.trans hobject
    split at hset
    · cases hset
      exact Or.inr (Nat.le_refl _)
    · exact Or.inl hset
  · intro type hlt _
    exact ⟨Store.type?_pushType_of_lt hlt, fun _ _ _ => rfl, fun _ _ => rfl⟩
  · exact Nat.le_trans (Nat.le_succ _) (Nat.le_of_eq (Store.types_size_pushType _).symm)

variable [Parser]

theorem Ready.keeps_withImportsObject {other : String} (h : Ready config work)
    (hother : other ≠ file) : Keeps mail other work (work.withImportsObject file) := by
  have hadvances := work.advances_withImportsObject mail (fun _ => True) file
  refine ⟨⟨rfl, fun _ => id, ?_, rfl, ?_, fun _ _ _ _ => ⟨rfl, rfl⟩⟩, rfl, rfl, fun _ => id,
    fun _ _ _ hhandled => hhandled.advances hadvances⟩
  · exact (importsObject?_setImportsObject _ _ _).trans (if_neg hother)
  · intro place hbelongs
    cases place with
    | ofVariable of => rfl
    | member owner name =>
      change (Store.object? _ owner).bind _ = (Store.object? _ owner).bind _
      rw [show (work.withImportsObject file).program.store.object? owner =
        work.program.store.object? owner from object?_newObject_of_lt _ _ (h.lt_object hbelongs)]
    | result function => cases hbelongs
    | property owner name => rfl

theorem Attached.withImportsObject (h : Attached config work file text)
    (hnone : work.state.importsObject? file = none) :
    Attached config (work.withImportsObject file) file text := by
  have hobject : (work.withImportsObject file).state.importsObject? file =
      some ⟨work.program.store.types.size⟩ :=
    (importsObject?_setImportsObject _ _ _).trans (if_pos rfl)
  have hbound : ∀ name, (work.withImportsObject file).state.bound? file name = none := by
    intro name
    change (work.state.binding? file).bind _ = none
    rw [h.unbound hnone]
    rfl
  refine ⟨?_, h.undeclared, h.undeclared_name, h.registered, ?_, ?_, ?_, h.rest, ?_, ?_⟩
  · intro habsent
    rw [hobject] at habsent
    cases habsent
  · intro object name _
    rw [hbound]
    rintro ⟨⟩
  · intro object name hsome
    rw [hobject] at hsome
    cases hsome
    rw [hbound]
    exact member?_newObject _ _ _ _
  · intro site rest hsites name
    have hshows := h.first site rest hsites name
    have hbefore : work.state.bound? file name = none := hbound name
    rw [hbefore] at hshows
    rw [hbound]
    exact hshows
  · intro entry hentry hleaves value hvalue
    rcases h.imports entry hentry hleaves value hvalue with hempty | ⟨object, hsome, _⟩
    · exact Or.inl hempty
    · rw [hnone] at hsome
      cases hsome
  · intro _ _ _ _ _ name _ _ _ type htype
    rw [hbound] at htype
    cases htype

/-- The members of a new imports object are yet to come. -/
theorem Ready.retains_withImportsObject (h : Ready config work) (file : String) :
    Retains config work (work.withImportsObject file) := by
  refine (Retains.refl config work).grows ?_ (fun _ _ => rfl) fun _ _ => id
  intro value hvalue
  refine ⟨hvalue.lt, ?_⟩
  intro place hplace
  cases place with
  | ofVariable of => cases hplace
  | result function => cases hplace
  | property owner name => exact hvalue.out (.property owner name) trivial
  | member owner name =>
    obtain ⟨other, hobject⟩ := hplace
    have hobject := (importsObject?_setImportsObject _ _ _).symm.trans hobject
    split at hobject
    · cases hobject
      have hnone : (work.withImportsObject file).program.store.member?
          ⟨work.program.store.types.size⟩ name = none := member?_newObject _ _ _ _
      intro hfound
      cases hnone.symm.trans hfound
    · have hsame : (work.withImportsObject file).program.store.member? owner name =
          work.program.store.member? owner name := by
        unfold Store.member?
        rw [show (work.withImportsObject file).program.store.object? owner =
          work.program.store.object? owner from
            object?_newObject_of_lt _ _ (h.lt_object hobject)]
      intro hfound
      exact hvalue.out (.member owner name) ⟨other, hobject⟩ (hsame.symm.trans hfound)

theorem Ready.withImportsObject (h : Ready config work)
    (hnone : work.state.importsObject? file = none) :
    Ready config (work.withImportsObject file) := by
  have hadvances := work.advances_withImportsObject [] (fun _ => True) file
  let store := (work.program.store.newObject (some importsParameter) (some file)).2
  have hsize : store.types.size = work.program.store.types.size + 1 :=
    Store.types_size_pushType _
  refine ⟨h.sound.newObject _ _, ?_, ?_, ?_, ?_, ?_⟩
  · exact h.loaded_of hadvances (fun other hother => h.keeps_withImportsObject hother)
      fun text hattached _ => hattached.withImportsObject hnone
  · intro name type htype
    exact Nat.lt_of_lt_of_le (h.registered name type htype) (by
      change _ ≤ store.types.size
      omega)
  · intro other object hobject
    change (store.object? object).isSome = true
    have hobject := (importsObject?_setImportsObject _ _ _).symm.trans hobject
    split at hobject
    · cases hobject
      simp [store, Store.newObject, Store.object?, Store.type?_pushType]
    · rw [object?_newObject_of_lt _ _ (h.lt_object hobject)]
      exact h.object other object hobject
  · intro first second object hfirst hsecond
    have hfirst := (importsObject?_setImportsObject _ _ _).symm.trans hfirst
    have hsecond := (importsObject?_setImportsObject _ _ _).symm.trans hsecond
    split at hfirst <;> split at hsecond
    · rename_i heq heq'
      rw [heq, heq']
    · cases hfirst
      exact absurd (h.lt_object hsecond) (Nat.lt_irrefl _)
    · cases hsecond
      exact absurd (h.lt_object hfirst) (Nat.lt_irrefl _)
    · exact h.apart first second object hfirst hsecond
  · intro other object name hobject
    have hobject := (importsObject?_setImportsObject _ _ _).symm.trans hobject
    split at hobject
    · cases hobject
      intro hlookup
      exact absurd (h.registered name _ hlookup) (Nat.lt_irrefl _)
    · exact h.foreign other object name hobject

omit [Parser] in
theorem run_importsObject {object : TypeId}
    (h : work.state.importsObject? file = some object) :
    (importsObject file).runOn work = (.ok object, work) := by
  have hget : Resolve.state.runOn work = (.ok work.state, work) := rfl
  refine (runOn_bind hget).trans ?_
  rw [h]
  rfl

/-- The imports object of a file is there or is made. -/
theorem Ready.importsObject (h : Ready config work) (mail : Mail) (wanted : PendingFile → Prop)
    (file : String) :
    ∃ object next, (Resolver.importsObject file).runOn work = (.ok object, next) ∧
      next.state.importsObject? file = some object ∧
      Concerns config mail wanted file work next := by
  cases hobject : work.state.importsObject? file with
  | some object =>
    exact ⟨object, work, run_importsObject hobject, hobject, .refl mail wanted file h⟩
  | none =>
    refine ⟨⟨work.program.store.types.size⟩, work.withImportsObject file, ?_, ?_, ?_⟩
    · have hget : Resolve.state.runOn work = (.ok work.state, work) := rfl
      refine (runOn_bind hget).trans ?_
      rw [hobject]
      rfl
    · exact (importsObject?_setImportsObject _ _ _).trans (if_pos rfl)
    · exact ⟨work.advances_withImportsObject mail wanted file,
        fun other hother => h.keeps_withImportsObject hother,
        work.preserves_withImportsObject hobject, h.retains_withImportsObject file,
        h.withImportsObject hobject⟩

/-! ### Writing to a variable of the file -/

omit [Parser] in
theorem mem_types_of_write {type : TypeId} {change : AbstractValue → AbstractValue}
    (h : ∀ held, (change held).types = held.types ∨ ∃ object,
      work.state.importsObject? file = some object ∧
        (change held).types = Store.insertNew held.types object) :
    ∀ held, type ∈ held.types → type ∈ (change held).types := by
  intro held hheld
  rcases h held with hsame | ⟨object, _, hadded⟩
  · rw [hsame]
    exact hheld
  · rw [hadded]
    exact Store.mem_insertNew.2 (Or.inl hheld)

/-- A variable gets the imports object, or stays as it is up to its enumeration. -/
theorem Attached.write {of : Variable} {value : ValueId}
    {change : AbstractValue → AbstractValue} (h : Attached config work file text)
    (hsound : work.program.store.Sound work.program.locals)
    (hof : work.program.locals of = some value)
    (hmembers : ∀ held, (change held).members = held.members)
    (htypes : ∀ held, (change held).types = held.types ∨ ∃ object,
      work.state.importsObject? file = some object ∧
        (change held).types = Store.insertNew held.types object) :
    Attached config (work.withStore (work.program.store.modifyValue value change)) file text := by
  have htouches : Store.Touches work.program.locals (fun place => place = .ofVariable of) ⟨0⟩
      work.program.store (work.program.store.modifyValue value change) :=
    .modifyValue hmembers rfl hof
  refine ⟨h.unbound, h.undeclared, h.undeclared_name, h.registered, h.foreign, ?_, ?_, ?_, ?_, ?_⟩
  · intro object name hobject
    exact htouches.shows hsound (by rintro ⟨⟩) (h.member object name hobject)
  · intro site rest hsites name
    exact htouches.shows hsound (by rintro ⟨⟩) (h.first site rest hsites name)
  · intro site rest hsites other hother name
    exact (htouches.place?_outside (by rintro ⟨⟩)).trans (h.rest site rest hsites other hother name)
  · intro entry hentry hleaves found hfound
    have hold := h.imports entry hentry hleaves found hfound
    by_cases heq : found = value
    · subst heq
      obtain ⟨held, hheld⟩ :=
        work.program.store.exists_value? (hsound.placed (.ofVariable of) found hof)
      change (Store.typesOf _ found) = [] ∨ ∃ object, _ ∧ (Store.typesOf _ found) = [object]
      simp only [store_withStore, state_withStore, Store.typesOf_modifyValue_self hheld]
      rw [Store.typesOf_eq _ hheld] at hold
      rcases htypes held with hsame | ⟨object, hobject, hadded⟩
      · rw [hsame]
        exact hold
      · right
        refine ⟨object, hobject, ?_⟩
        rw [hadded]
        rcases hold with hempty | ⟨object', hobject', hone⟩
        · rw [hempty]
          rfl
        · rw [hobject] at hobject'
          cases hobject'
          rw [hone]
          exact Store.insertNew_of_mem List.mem_cons_self
    · have hstay : (work.program.store.modifyValue value change).typesOf found =
          work.program.store.typesOf found := Store.typesOf_modifyValue_of_ne heq
      change (Store.typesOf _ found) = [] ∨ ∃ object, _ ∧ (Store.typesOf _ found) = [object]
      simp only [store_withStore, state_withStore, hstay]
      exact hold
  · intro names hnames site rest hsites name found hfound hsole type hbound
    exact Store.mem_typesOf_modifyValue (mem_types_of_write htypes)
      (h.aliases names hnames site rest hsites name found hfound hsole type hbound)

theorem Ready.write {of : Variable} {value : ValueId} (h : Ready config work) (mail : Mail)
    (wanted : PendingFile → Prop) (change : AbstractValue → AbstractValue)
    (hof : work.program.locals of = some value)
    (hmembers : ∀ held, (change held).members = held.members)
    (htypes : ∀ held, (change held).types = held.types ∨ ∃ object,
      work.state.importsObject? of.file = some object ∧
        (change held).types = Store.insertNew held.types object) :
    Concerns config mail wanted of.file work
      (work.withStore (work.program.store.modifyValue value change)) := by
  have hadvances := Work.Advances.withStore mail wanted work
    (work.program.store.modifyValue value change)
  have htouches : Store.Touches work.program.locals (fun place => place = .ofVariable of) ⟨0⟩
      work.program.store (work.program.store.modifyValue value change) :=
    .modifyValue hmembers rfl hof
  have hkeeps : ∀ other, other ≠ of.file → Keeps mail other work
      (work.withStore (work.program.store.modifyValue value change)) := by
    intro other hother
    refine .of_touches hadvances rfl rfl rfl h.sound htouches ?_
    rintro place hbelongs rfl
    exact hother hbelongs.symm
  have hpreserves : Preserves work
      (work.withStore (work.program.store.modifyValue value change)) := by
    refine ⟨fun _ _ => id, fun _ _ => Or.inl, ?_, Nat.le_refl _⟩
    intro type _ _
    refine ⟨rfl, ?_, ?_⟩
    · intro name member hmember
      have hplace : work.program.store.place? work.program.locals (.member type name) =
          some member := hmember
      exact (htouches.types_outside h.sound hplace (by rintro ⟨⟩)).1
    · intro result hresult
      have hplace : work.program.store.place? work.program.locals (.result type) =
          some result := hresult
      exact (htouches.types_outside h.sound hplace (by rintro ⟨⟩)).1
  have hretains : Retains config work
      (work.withStore (work.program.store.modifyValue value change)) :=
    (Retains.refl config work).grows (fun _ hvalue => hvalue.touches rfl rfl htouches)
      (fun _ _ => rfl) fun _ _ => Store.mem_typesOf_modifyValue (mem_types_of_write htypes)
  refine ⟨hadvances, hkeeps, hpreserves, hretains, h.touch hadvances rfl ?_ htouches hkeeps ?_⟩
  · refine h.sound.modifyValue hmembers ?_
    intro held type ht
    rcases htypes held with hsame | ⟨object, hobject, hadded⟩
    · rw [hsame] at ht
      exact Or.inl ht
    · rw [hadded] at ht
      rcases Store.mem_insertNew.1 ht with ht | rfl
      · exact Or.inl ht
      · exact Or.inr (h.lt_object hobject)
  · intro text hattached _
    exact hattached.write h.sound hof hmembers htypes

end Capabilities.Resolver
