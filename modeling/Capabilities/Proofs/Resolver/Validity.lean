import Capabilities.Proofs.Resolver.Pass
import Capabilities.Resolver.Plugin

/-!
# Nothing that is held leads out of the store

Work is *valid* if every id that is held anywhere is one of the store, and what stands for the
imports of a file is an object type. This is less than being ready (`Ready`), which also says what
is bound to what: work stays valid while the resolver is disabled and files are loaded past it.

A step *succeeds* if from valid work it is never refused and leaves valid work. The rules for it are
those of a total program logic, the store may only grow, and every operation of the store that is
used when providers are registered and imports are bound succeeds where it is used. So registering
and binding are never refused, however files were loaded before.
-/

namespace Capabilities

open Host Script Session Capabilities.Types Capabilities.Module

/-! ### Operations that are not refused -/

namespace Types.Store

variable {α : Type} {start store : Store} {value : ValueId} {type : TypeId}

/-- A sound store that has grown out of `start` does not refuse the operation. It stays sound, and
    the answer is as `good` says. -/
def Accepts (start : Store) (operation : Store → Except StoreError α × Store)
    (good : Store → α → Prop) : Prop :=
  ∀ store locals, store.Sound locals → start.Grows store →
    ∃ answer next, operation store = (.ok answer, next) ∧ next.Sound locals ∧ store.Grows next ∧
      good next answer

theorem accepts_newObject (name origin : Option String) :
    Accepts start
      (fun store => (.ok (store.newObject name origin).1, (store.newObject name origin).2))
      fun next object => (next.object? object).isSome = true := by
  intro store locals hsound _
  refine ⟨_, _, rfl, hsound.newObject name origin, Grows.pushType store _, ?_⟩
  have hnew := type?_pushType store (.object ⟨name, .empty, none, origin⟩) ⟨store.types.size⟩
  rw [if_pos rfl] at hnew
  change ((store.pushType _).2.object? ⟨store.types.size⟩).isSome = true
  rw [object?_eq_some _ hnew]
  rfl

theorem accepts_addType (hvalue : Located.Within start value) (htype : Located.Within start type) :
    Accepts start (·.addType value type) fun _ _ => True := by
  intro store locals hsound hgrows
  obtain ⟨held, hheld⟩ := store.exists_value? (Located.mono hgrows hvalue)
  have ht := Located.mono hgrows htype
  exact ⟨_, _, store.addType_eq ht hheld, hsound.withType ht, Grows.modifyValue store value _,
    trivial⟩

theorem accepts_removeType (hvalue : Located.Within start value) (type : TypeId) :
    Accepts start (·.removeType value type) fun _ _ => True := by
  intro store locals hsound hgrows
  obtain ⟨held, hheld⟩ := store.exists_value? (Located.mono hgrows hvalue)
  exact ⟨_, _, store.removeType_eq hheld, hsound.withoutType, Grows.modifyValue store value _,
    trivial⟩

theorem accepts_setEnumeration (hvalue : Located.Within start value) (names : List String) :
    Accepts start (·.setEnumeration value names) fun _ _ => True := by
  intro store locals hsound hgrows
  obtain ⟨held, hheld⟩ := store.exists_value? (Located.mono hgrows hvalue)
  refine ⟨_, _, store.setEnumeration_eq hheld, ?_, Grows.modifyValue store value _, trivial⟩
  exact hsound.modifyValue (fun _ => rfl) fun _ _ => Or.inl

theorem accepts_ensureMember (hobject : (start.object? type).isSome = true) (name : String) :
    Accepts start (·.ensureMember type name) (Located.Within (α := ValueId)) := by
  intro store locals hsound hgrows
  obtain ⟨object, ho⟩ := Option.isSome_iff_exists.1 (hgrows.object type hobject)
  cases hmember : object.members.get? name with
  | some member =>
    refine ⟨member, store, store.ensureMember_present ho hmember, hsound, .refl store, ?_⟩
    refine hsound.placed (.member type name) member ?_
    simp only [place?, member?, ho, Option.bind_some, hmember]
  | none =>
    refine ⟨_, _, store.ensureMember_absent ho hmember, hsound.addMember name ho,
      Grows.addMember store name ho, ?_⟩
    change store.values.size < (store.addMember type object name).values.size
    rw [values_size_addMember]
    exact Nat.lt_succ_self _

theorem accepts_valueMember (hvalue : Located.Within start value) (name : String) :
    Accepts start (·.valueMember value name) (Located.Within (α := ValueId)) := by
  intro store locals hsound hgrows
  have hlt : value.index < store.values.size := Located.mono hgrows hvalue
  obtain ⟨held, hheld⟩ := store.exists_value? hlt
  cases hmember : held.members.get? name with
  | some member =>
    refine ⟨member, store, store.valueMember_present hheld hmember, hsound, .refl store, ?_⟩
    refine hsound.placed (.property value name) member ?_
    simp only [place?, hheld, Option.bind_some, hmember]
  | none =>
    refine ⟨_, _, store.valueMember_absent hheld hmember, hsound.addProperty name hlt,
      (Grows.newValue store).trans (Grows.modifyValue _ value _), ?_⟩
    change store.values.size < (store.addProperty value name).values.size
    rw [values_size_addProperty]
    exact Nat.lt_succ_self _

theorem accepts_setDoc (hobject : (start.object? type).isSome = true) (doc : String) :
    Accepts start (fun store => (.ok (), store.setDoc type doc)) fun _ _ => True := by
  intro store locals hsound hgrows
  obtain ⟨object, ho⟩ := Option.isSome_iff_exists.1 (hgrows.object type hobject)
  refine ⟨(), _, rfl, hsound.setDoc type doc, ?_, trivial⟩
  rw [store.setDoc_eq doc ho]
  exact Grows.setType store _ (lt_of_type? (store.type?_of_object? ho))

/-- A store that holds another one has grown out of it. -/
theorem Embeds.grows {shift : Shift} {base own whole : Store} {locals : Variables}
    (h : Embeds shift base own whole) (hown : own.Sound locals) : base.Grows whole := by
  refine ⟨h.types_le hown, h.values_le, ?_⟩
  intro type htype
  obtain ⟨object, hobject⟩ := Option.isSome_iff_exists.1 htype
  unfold Store.object?
  rw [h.old_type type (lt_of_type? (base.type?_of_object? hobject))]
  exact htype

/-- The types that are read off a sound store are there. -/
theorem Sound.lt_of_firstType? {locals : Variables} (h : store.Sound locals)
    (hfirst : store.firstType? value = some type) : type.index < store.types.size :=
  h.held value type (List.mem_of_mem_head? hfirst)

end Types.Store

/-! ### Valid programs -/

/-- What is known about a program's files is in its store. The values of variables are, as the
    store is sound with them. -/
structure Session.Program.Valid (program : Program) : Prop where
  sound : program.store.Sound program.locals
  noted : ∀ file id value, program.expression? file id = some value →
    Located.Within program.store value

namespace Session.Program.Valid

variable {first second program : Program}

theorem initial : Program.initial.Valid :=
  ⟨Store.Sound.initial, fun _ _ _ hvalue => by cases hvalue⟩

/-- Nothing is known of the files that have come, and the others are as they were. -/
theorem of_files (h : first.Valid) (hstore : second.store = first.store)
    (hfiles : ∀ path loaded, second.files.get? path = some loaded →
      loaded.inference = .empty ∨ first.files.get? path = some loaded) : second.Valid := by
  constructor
  · rw [hstore]
    refine h.sound.forget ?_
    intro of value hvalue
    obtain ⟨loaded, hloaded, hown⟩ := Option.bind_eq_some_iff.1 hvalue
    rcases hfiles of.file loaded hloaded with hempty | hold
    · rw [hempty] at hown
      cases hown
    · exact Option.bind_eq_some_iff.2 ⟨loaded, hold, hown⟩
  · intro file id value hvalue
    obtain ⟨loaded, hloaded, hown⟩ := Option.bind_eq_some_iff.1 hvalue
    rw [hstore]
    rcases hfiles file loaded hloaded with hempty | hold
    · rw [hempty] at hown
      cases hown
    · exact h.noted file id value (Option.bind_eq_some_iff.2 ⟨loaded, hold, hown⟩)

theorem of_same (h : first.Valid) (hstore : second.store = first.store)
    (hfiles : second.files = first.files) : second.Valid :=
  h.of_files hstore fun path loaded hloaded => Or.inr (by rw [← hfiles]; exact hloaded)

theorem write {store : Store} (h : program.Valid) (hsound : store.Sound program.locals)
    (hgrows : program.store.Grows store) : (program.withStore store).Valid :=
  ⟨hsound, fun file id value hvalue => Located.mono hgrows (h.noted file id value hvalue)⟩

theorem updateFile (h : program.Valid) (path text : String) :
    (program.updateFile path text).Valid := by
  refine h.of_files rfl fun other loaded hloaded => Or.inr ?_
  change (program.files.erase path).get? other = some loaded at hloaded
  rw [Keyed.get?_erase] at hloaded
  split at hloaded
  · cases hloaded
  · exact hloaded

/-- Inferring a file is not refused. What is found out about it may be noted for the file. -/
theorem infer (h : program.Valid) (path : String) (root : Node) :
    ∃ inference store, Inference.inferFile path root program.store = (.ok inference, store) ∧
      ∀ files : Keyed LoadedFile, (∀ other loaded, files.get? other = some loaded →
        program.files.get? other = some loaded ∨ other = path ∧ loaded.inference = inference) →
      program.store.Grows store ∧
        ({ program with store := store, files := files } : Program).Valid := by
  obtain ⟨inference, own, whole, -, hwhole, housed⟩ := Inference.inferFile_sound h.sound path root
  have hgrows : program.store.Grows whole := housed.inside.embeds.grows housed.inside.sound
  refine ⟨_, whole, hwhole, fun files hfiles => ⟨hgrows, ?_, ?_⟩⟩
  · refine housed.inside.embeds.sound h.sound housed.inside.sound ?_
    intro of value hvalue
    obtain ⟨loaded, hloaded, hown⟩ := Option.bind_eq_some_iff.1 hvalue
    rcases hfiles of.file loaded hloaded with hold | ⟨hfile, hinference⟩
    · exact Or.inl (Option.bind_eq_some_iff.2 ⟨loaded, hold, hown⟩)
    · rw [hinference, Inference.FileInference.own?_move] at hown
      obtain ⟨inner, hinner, rfl⟩ := Option.map_eq_some_iff.1 hown
      refine Or.inr ⟨inner, ?_, rfl⟩
      unfold Inference.FileInference.locals
      rw [if_pos hfile]
      exact hinner
  · intro file id value hvalue
    obtain ⟨loaded, hloaded, hown⟩ := Option.bind_eq_some_iff.1 hvalue
    rcases hfiles file loaded hloaded with hold | ⟨-, hinference⟩
    · exact Located.mono hgrows
        (h.noted file id value (Option.bind_eq_some_iff.2 ⟨loaded, hold, hown⟩))
    · rw [hinference, Inference.FileInference.expression?_move] at hown
      obtain ⟨inner, hinner, rfl⟩ := Option.map_eq_some_iff.1 hown
      exact housed.inside.embeds.lt_values (housed.noted id inner hinner)

end Session.Program.Valid

namespace Resolver

variable {α β : Type} {start store : Store} {state first second : State} {work before after : Work}
  {value : ValueId} {object : TypeId} {file name : String}

/-! ### Valid memory -/

/-- What the resolver remembers is in a store. -/
structure State.Valid (store : Store) (state : State) : Prop where
  /-- The types of providers. -/
  registered : ∀ name type, state.registry.lookup? name = some type → Located.Within store type
  /-- The types that stored bindings have for names. -/
  bound : ∀ file name type, state.bound? file name = some type → Located.Within store type
  /-- The objects that stand for imports. -/
  object : ∀ file object, state.importsObject? file = some object →
    (store.object? object).isSome = true

namespace State.Valid

theorem initial (store : Store) : State.initial.Valid store :=
  ⟨fun _ _ htype => (by cases htype), fun _ _ _ htype => (by cases htype),
    fun _ _ hobject => (by cases hobject)⟩

theorem mono (h : state.Valid start) (hgrows : start.Grows store) : state.Valid store :=
  ⟨fun name type htype => Located.mono hgrows (h.registered name type htype),
    fun file name type htype => Located.mono hgrows (h.bound file name type htype),
    fun file object hobject => hgrows.object object (h.object file object hobject)⟩

theorem of_same (h : first.Valid store) (hregistry : second.registry = first.registry)
    (hbindings : second.bindings = first.bindings)
    (hobjects : second.importsObjects = first.importsObjects) : second.Valid store := by
  refine ⟨?_, ?_, ?_⟩
  · rw [hregistry]
    exact h.registered
  · unfold State.bound? State.binding?
    rw [hbindings]
    exact h.bound
  · unfold State.importsObject?
    rw [hobjects]
    exact h.object

theorem reports (h : first.Valid store) (hreports : first.Reports second) : second.Valid store :=
  h.of_same hreports.registry hreports.bindings hreports.importsObjects

theorem register {type : TypeId} (h : state.Valid store) (name : String)
    (htype : Located.Within store type) (origin : Option String) :
    (state.register name type origin).Valid store := by
  refine ⟨?_, h.bound, h.object⟩
  intro other found hfound
  have hlookup : (state.register name type origin).registry.lookup? other =
      if other = name then some type else state.registry.lookup? other := by
    unfold Registry.lookup? State.register
    rw [Registry.provider?_register]
    split <;> rfl
  rw [hlookup] at hfound
  split at hfound
  · cases hfound
    exact htype
  · exact h.registered other found hfound

theorem setImportsObject (h : state.Valid store) (file : String)
    (hobject : (store.object? object).isSome = true) :
    (state.setImportsObject file object).Valid store := by
  refine ⟨h.registered, h.bound, ?_⟩
  intro other found hfound
  change (state.importsObjects.put file object).get? other = some found at hfound
  rw [Keyed.get?_put] at hfound
  split at hfound
  · cases hfound
    exact hobject
  · exact h.object other found hfound

theorem storeBinding {binding : ImportsBinding} (h : state.Valid store)
    (hbinding : ∀ name type, binding.type? name = some type → Located.Within store type) :
    (state.storeBinding binding).Valid store := by
  refine ⟨h.registered, ?_, h.object⟩
  intro other name type htype
  have hget : (state.storeBinding binding).binding? other =
      if other = binding.file then some binding else state.binding? other := Keyed.get?_put _ _ _ _
  unfold State.bound? at htype
  rw [hget] at htype
  split at htype
  · exact hbinding name type htype
  · exact h.bound other name type htype

theorem resetFile (h : state.Valid store) (file : String) : (state.resetFile file).Valid store := by
  refine ⟨h.registered, ?_, ?_⟩
  · intro other name type htype
    have hget : (state.resetFile file).binding? other =
        if other = file then none else state.binding? other := Keyed.get?_erase _ _ _
    unfold State.bound? at htype
    rw [hget] at htype
    split at htype
    · cases htype
    · exact h.bound other name type htype
  · intro other found hfound
    change (state.importsObjects.erase file).get? other = some found at hfound
    rw [Keyed.get?_erase] at hfound
    split at hfound
    · cases hfound
    · exact h.object other found hfound

end State.Valid

/-! ### Valid work -/

/-- Every id that is held anywhere is one of the store, and what stands for the imports of a file is
    an object type. -/
structure Work.Valid (work : Work) : Prop where
  program : work.program.Valid
  state : work.state.Valid work.program.store

theorem Work.Valid.initial (table : PathTable) : Work.Valid ⟨.initial, .initial, table⟩ :=
  ⟨.initial, .initial _⟩

theorem Work.Valid.write (h : work.Valid) (hsound : store.Sound work.program.locals)
    (hgrows : work.program.store.Grows store) : (work.withStore store).Valid :=
  ⟨h.program.write hsound hgrows, h.state.mono hgrows⟩

theorem Work.Valid.withState (h : work.Valid) (hstate : state.Valid work.program.store) :
    ({ work with state := state } : Work).Valid :=
  ⟨h.program, hstate⟩

theorem Work.Valid.withOrigin (h : work.Valid) (origin : Option String) :
    (work.withOrigin origin).Valid :=
  ⟨h.program, h.state.of_same rfl rfl rfl⟩

theorem Work.Valid.asks {mail : Mail} {wanted : PendingFile → Prop} (h : before.Valid)
    (hasks : before.Asks mail wanted after) : after.Valid := by
  refine ⟨h.program.of_same hasks.store hasks.files, ?_⟩
  rw [hasks.store]
  exact h.state.reports hasks.state

/-! ### Steps that succeed -/

/-- A step is never refused: from valid work whose store has grown out of `start` it comes to an
    answer that is as `good` says, and the work is valid again. -/
def Succeeds (start : Store) (step : Resolve α) (good : Store → α → Prop) : Prop :=
  ∀ work : Work, work.Valid → start.Grows work.program.store →
    ∃ answer next, step.runOn work = (.ok answer, next) ∧ next.Valid ∧
      work.program.store.Grows next.program.store ∧ good next.program.store answer

namespace Succeeds

variable {step : Resolve α} {good : Store → α → Prop} {result : Store → β → Prop}

theorem pure (answer : α) (h : ∀ next, start.Grows next → good next answer) :
    Succeeds start (Pure.pure answer) good :=
  fun work hvalid hgrows => ⟨answer, work, rfl, hvalid, .refl _, h _ hgrows⟩

theorem done : Succeeds start (Pure.pure ()) fun _ _ => True :=
  .pure () fun _ _ => trivial

theorem bind {rest : α → Resolve β} (h : Succeeds start step good)
    (hrest : ∀ later answer, start.Grows later → good later answer →
      Succeeds later (rest answer) result) : Succeeds start (step >>= rest) result := by
  intro work hvalid hgrows
  obtain ⟨answer, middle, hrun, hmiddle, hgrows', hgood⟩ := h work hvalid hgrows
  obtain ⟨last, next, hrun', hnext, hgrows'', hresult⟩ :=
    hrest middle.program.store answer (hgrows.trans hgrows') hgood middle hmiddle (.refl _)
  exact ⟨last, next, (runOn_bind hrun).trans hrun', hnext, hgrows'.trans hgrows'', hresult⟩

/-- A look at the work shows that it is valid. -/
theorem look {rest : Work → Resolve β}
    (h : ∀ work : Work, work.Valid → start.Grows work.program.store →
      Succeeds work.program.store (rest work) result) :
    Succeeds start (MonadState.get >>= rest) result :=
  fun work hvalid hgrows => h work hvalid hgrows work hvalid (.refl _)

/-- A look at the resolver's memory shows that it is valid. -/
theorem consult {rest : State → Resolve β}
    (h : ∀ later state, start.Grows later → state.Valid later →
      Succeeds later (rest state) result) : Succeeds start (Resolve.state >>= rest) result :=
  fun work hvalid hgrows =>
    h work.program.store work.state hgrows hvalid.state work hvalid (.refl _)

theorem forM {items : List α} {each : α → Resolve Unit}
    (h : ∀ item ∈ items, ∀ later, start.Grows later →
      Succeeds later (each item) fun _ _ => True) :
    Succeeds start (items.forM each) fun _ _ => True := by
  induction items generalizing start with
  | nil => exact .done
  | cons item rest ih =>
    refine .bind (h item List.mem_cons_self start (.refl _)) ?_
    intro later _ hgrows _
    refine ih ?_
    intro other hother next hnext
    exact h other (List.mem_cons_of_mem _ hother) next (hgrows.trans hnext)

theorem onStore {operation : Store → Except StoreError α × Store}
    (h : Store.Accepts start operation good) : Succeeds start (Resolve.onStore operation) good := by
  intro work hvalid hgrows
  obtain ⟨answer, next, hrun, hsound, hnext, hgood⟩ :=
    h work.program.store work.program.locals hvalid.program.sound hgrows
  refine ⟨answer, work.withStore next, ?_, hvalid.write hsound hnext, hnext, hgood⟩
  rw [run_onStore, hrun]

theorem remember {change : State → State}
    (h : ∀ later state, start.Grows later → state.Valid later → (change state).Valid later) :
    Succeeds start (Resolve.remember change) fun _ _ => True :=
  fun work hvalid hgrows => ⟨(), { work with state := change work.state }, rfl,
    hvalid.withState (h work.program.store work.state hgrows hvalid.state), .refl _, trivial⟩

theorem addType {type : TypeId} (hvalue : Located.Within start value)
    (htype : Located.Within start type) :
    Succeeds start (Resolve.addType value type) fun _ _ => True :=
  .bind (.onStore (Store.accepts_addType hvalue htype)) fun _ _ _ _ => .done

theorem removeType (hvalue : Located.Within start value) (type : TypeId) :
    Succeeds start (Resolve.removeType value type) fun _ _ => True :=
  .bind (.onStore (Store.accepts_removeType hvalue type)) fun _ _ _ _ => .done

theorem newObject (name origin : Option String) :
    Succeeds start (Resolve.growing (·.newObject name origin))
      fun next object => (next.object? object).isSome = true :=
  .onStore (Store.accepts_newObject name origin)

end Succeeds

theorem within_of_object? (h : (start.object? object).isSome = true) :
    Located.Within start object := by
  obtain ⟨found, hfound⟩ := Option.isSome_iff_exists.1 h
  exact Store.lt_of_type? (start.type?_of_object? hfound)

/-! ### Registering -/

theorem succeeds_literalMembers (file : String) (literal : ObjectLiteral) :
    Succeeds start (literalMembers file literal) (Located.Within (α := List Member)) := by
  refine .look fun work hvalid _ => .pure _ ?_
  intro next hgrows member hmember
  obtain ⟨key, -, rfl⟩ := List.mem_map.1 hmember
  refine ⟨trivial, ?_⟩
  intro type htype
  obtain ⟨object, -, hobject⟩ := Option.bind_eq_some_iff.1 htype
  obtain ⟨place, -, hplace⟩ := Option.bind_eq_some_iff.1 hobject
  exact Located.mono hgrows
    (show Located.Within work.program.store type from
      hvalid.program.sound.lt_of_firstType? hplace)

theorem succeeds_providerObject (file : String) {members : List Member}
    (hmembers : Located.Within start members) :
    Succeeds start (providerObject file members)
      fun next object => (next.object? object).isSome = true := by
  refine .bind (.newObject none (some file)) fun later object hgrows hobject => ?_
  refine .bind (.forM ?_) fun last _ hlast _ =>
    .pure object fun next hnext => hnext.object object (hlast.object object hobject)
  rintro ⟨name, type⟩ hmember next hnext
  refine .bind (.onStore (Store.accepts_ensureMember (hnext.object object hobject) name))
    fun last member hlast hplace => ?_
  cases type with
  | none => exact .done
  | some type =>
    have htype := (hmembers _ hmember).2 type rfl
    exact .addType hplace (Located.mono ((hgrows.trans hnext).trans hlast) htype)

theorem succeeds_register {type : TypeId} (name : String) (htype : Located.Within start type)
    (origin : Option String) :
    Succeeds start (Resolve.remember (·.register name type origin)) fun _ _ => True :=
  .remember fun _ _ hgrows hstate => hstate.register name (Located.mono hgrows htype) origin

theorem succeeds_warnFile (file : String) (warning : Warning) :
    Succeeds start (Resolve.remember (·.warnFile file warning)) fun _ _ => True :=
  .remember fun _ state _ hstate => hstate.reports (reports_warnFile state file warning)

theorem succeeds_registerMembers (file : String) {members : List Member}
    (hmembers : Located.Within start members) :
    Succeeds start (registerMembers file members) fun _ _ => True := by
  refine .forM ?_
  rintro ⟨name, type⟩ hmember later hgrows
  cases type with
  | none => exact .done
  | some type =>
    exact succeeds_register name (Located.mono hgrows ((hmembers _ hmember).2 type rfl)) _

theorem succeeds_registerAt (file : String) (declared : Option (List String)) (position : Nat)
    {members : List Member} (hmembers : Located.Within start members) :
    Succeeds start (registerAt file declared position members) fun _ _ => True := by
  unfold registerAt
  split
  · exact .bind (succeeds_providerObject file hmembers) fun _ object _ hobject =>
      succeeds_register _ (within_of_object? hobject) _
  · exact succeeds_warnFile file _

theorem succeeds_registerAll (file : String) (declared : Option (List String)) (position : Nat)
    (literals : List ObjectLiteral) :
    Succeeds start (registerAll file declared position literals) fun _ _ => True := by
  induction literals generalizing start position with
  | nil => exact .done
  | cons literal rest ih =>
    refine .bind (succeeds_literalMembers file literal) fun later members _ hmembers => ?_
    split
    · exact .bind (succeeds_registerMembers file hmembers) fun _ _ _ _ => ih position
    · exact .bind (succeeds_registerAt file declared position hmembers) fun _ _ _ _ =>
        ih (position + 1)

theorem succeeds_registerFrozen (file : String) (declared : Option (List String))
    (freeze : FreezeCall) :
    Succeeds start (registerFrozen file declared freeze) fun _ _ => True := by
  unfold registerFrozen
  split
  · exact succeeds_warnFile file _
  · rename_i name
    refine .bind (succeeds_literalMembers file freeze.literal) fun later members _ hmembers => ?_
    refine .bind (succeeds_providerObject file hmembers) fun later object _ hobject => ?_
    have hregister : ∀ {last : Store}, later.Grows last →
        Succeeds last (Resolve.remember (·.register name object (some file))) fun _ _ => True :=
      fun hgrows => succeeds_register name (within_of_object? (hgrows.object object hobject)) _
    have hdoc : Succeeds later (leadingDoc file freeze.start) fun _ _ => True :=
      .look fun _ _ _ => .pure _ fun _ _ => trivial
    refine .bind hdoc fun last doc hlast _ => ?_
    cases doc with
    | none => exact hregister hlast
    | some doc =>
      exact .bind (.onStore (Store.accepts_setDoc (hlast.object object hobject) doc))
        fun _ _ hgrows _ => hregister (hlast.trans hgrows)
  · exact succeeds_warnFile file _

/-- Registering what a file provides is never refused. -/
theorem succeeds_synthesize (config : Config) (file : String) :
    Succeeds start (synthesize config file) fun _ _ => True := by
  refine .look fun work _ _ => ?_
  split
  · exact .done
  · exact .bind (succeeds_registerAll file _ 0 _) fun _ _ _ _ =>
      .forM fun freeze _ _ _ => succeeds_registerFrozen file _ freeze

/-! ### Binding -/

variable {config : Config} {mail : Mail} {site : ConsumerSite}

theorem succeeds_importsObject (file : String) :
    Succeeds start (importsObject file)
      fun next object => (next.object? object).isSome = true := by
  refine .consult fun later state _ hstate => ?_
  split
  · rename_i object hobject
    exact .pure object fun next hgrows => hgrows.object object (hstate.object file object hobject)
  · refine .bind (.newObject (some importsParameter) (some file)) fun later object _ hobject => ?_
    have hset : Succeeds later (Resolve.remember (·.setImportsObject file object))
        fun _ _ => True :=
      .remember fun last state hgrows hvalid =>
        hvalid.setImportsObject file (hgrows.object object hobject)
    exact .bind hset fun last _ hlast _ =>
      .pure object fun next hnext => hnext.object object (hlast.object object hobject)

theorem succeeds_resolveName (file name : String) :
    Succeeds start (resolveName config mail file name) (Located.Within (α := Option TypeId)) := by
  refine .consult fun later state _ hstate => ?_
  split
  · rename_i type htype
    refine .pure (some type) ?_
    rintro next hgrows _ ⟨⟩
    exact Located.mono hgrows (hstate.registered name type htype)
  · have hask : Succeeds later
        (modify fun work => (schedule config mail name file work).2 : Resolve Unit)
        fun _ _ => True := by
      intro work hvalid hgrows
      have hasks : work.Asks mail (fun _ => True) (schedule config mail name file work).2 :=
        asks_schedule fun _ _ _ _ => trivial
      refine ⟨(), _, rfl, hvalid.asks hasks, ?_, trivial⟩
      rw [hasks.store]
      exact .refl _
    refine .bind hask fun last _ _ _ => .consult fun last state _ hstate => .pure _ ?_
    intro next hgrows type htype
    exact Located.mono hgrows (hstate.registered name type htype)

theorem succeeds_replaceType {new : Option TypeId} (old : Option TypeId)
    (hvalue : Located.Within start value) (hnew : Located.Within start new) :
    Succeeds start (replaceType old new value) fun _ _ => True := by
  have hadd : ∀ {later : Store} {type : TypeId}, start.Grows later → new = some type →
      Succeeds later (Resolve.addType value type) fun _ _ => True := fun hgrows heq =>
    .addType (Located.mono hgrows hvalue) (Located.mono hgrows (hnew _ heq))
  cases old with
  | none =>
    cases new with
    | none => exact .done
    | some new => exact hadd (.refl start) rfl
  | some old =>
    refine .bind (.removeType hvalue old) fun later _ hgrows _ => ?_
    cases new with
    | none => exact .done
    | some new => exact hadd hgrows rfl

theorem succeeds_attach {type : Option TypeId} (name : String)
    (himports : Located.Within start site.imports) (haliases : Located.Within start site.aliases)
    (hobject : (start.object? object).isSome = true) (htype : Located.Within start type) :
    Succeeds start (attach site object name type) fun _ _ => True := by
  refine .consult fun later state hgrows _ => ?_
  dsimp only
  split
  · exact .done
  · refine .bind (.onStore (Store.accepts_valueMember (Located.mono hgrows himports) name))
      fun second direct hsecond hdirect => ?_
    have hsecond := hgrows.trans hsecond
    refine .bind (.onStore (Store.accepts_ensureMember (hsecond.object object hobject) name))
      fun third member hthird hmember => ?_
    refine .forM ?_
    intro value hvalue next hnext
    have hnext' := (hsecond.trans hthird).trans hnext
    refine succeeds_replaceType _ ?_ (Located.mono hnext' htype)
    rcases List.mem_cons.1 hvalue with rfl | hvalue
    · exact Located.mono (hthird.trans hnext) hdirect
    · rcases List.mem_cons.1 hvalue with rfl | hvalue
      · exact Located.mono hnext hmember
      · obtain ⟨item, hitem, rfl⟩ := List.mem_map.1 hvalue
        exact Located.mono hnext' (haliases item (List.mem_filter.1 hitem).1).2

/-- The types of a binding are in a store. -/
def ImportsBinding.Valid (store : Store) (binding : ImportsBinding) : Prop :=
  ∀ name type, binding.type? name = some type → Located.Within store type

theorem ImportsBinding.Valid.bind {binding : ImportsBinding} {type : Option TypeId}
    (h : binding.Valid store) (name : String) (htype : Located.Within store type) :
    (binding.bind name type).Valid store := by
  intro other found hfound
  have hget : (binding.bind name type).type? other =
      if other = name then type else binding.type? other := by
    unfold ImportsBinding.type? ImportsBinding.bind
    rw [Keyed.get?_put]
    split <;> rfl
  rw [hget] at hfound
  split at hfound
  · exact htype found hfound
  · exact h other found hfound

theorem ImportsBinding.Valid.mono {binding : ImportsBinding} (h : binding.Valid start)
    (hgrows : start.Grows store) : binding.Valid store :=
  fun name type htype => Located.mono hgrows (h name type htype)

theorem succeeds_bindNames {binding : ImportsBinding} (names : List String)
    (himports : Located.Within start site.imports) (haliases : Located.Within start site.aliases)
    (hobject : (start.object? object).isSome = true) (hbinding : binding.Valid start) :
    Succeeds start (bindNames config mail site object binding names)
      fun next binding => binding.Valid next := by
  induction names generalizing start binding with
  | nil => exact .pure binding fun next hgrows => hbinding.mono hgrows
  | cons name rest ih =>
    refine .bind (succeeds_resolveName site.file name) fun second type hsecond htype => ?_
    refine .bind (succeeds_attach name (Located.mono hsecond himports)
      (Located.mono hsecond haliases) (hsecond.object object hobject) htype)
      fun third _ hthird _ => ?_
    have hgrows := hsecond.trans hthird
    exact ih (Located.mono hgrows himports) (Located.mono hgrows haliases)
      (hgrows.object object hobject)
      ((hbinding.mono hgrows).bind name (Located.mono hthird htype))

theorem succeeds_bindSite (names : List String) (himports : Located.Within start site.imports)
    (haliases : Located.Within start site.aliases) :
    Succeeds start (bindSite config mail names site) fun _ _ => True := by
  have hentry : Succeeds start (bindEntry config mail site names)
      fun next binding => binding.Valid next := by
    refine .bind (succeeds_importsObject site.file) fun second object hsecond hobject => ?_
    have himports := Located.mono hsecond himports
    refine .bind (.addType himports (within_of_object? hobject)) fun third _ hthird _ => ?_
    have himports := Located.mono hthird himports
    have haliases := Located.mono (hsecond.trans hthird) haliases
    have hempty : (ImportsBinding.empty site.file).Valid third := fun _ _ htype => by cases htype
    refine .bind (succeeds_bindNames names himports haliases (hthird.object object hobject) hempty)
      fun fourth binding hfourth hbinding => ?_
    exact .bind (.onStore (Store.accepts_setEnumeration (Located.mono hfourth himports) _))
      fun last _ hlast _ => .pure binding fun next hnext =>
        (hbinding.mono hlast).mono hnext
  refine .bind hentry fun later binding _ hbinding => .remember ?_
  exact fun last state hgrows hstate => hstate.storeBinding (hbinding.mono hgrows)

/-- Binding the consumers of a file is never refused. -/
theorem succeeds_bindFile (file : String) :
    Succeeds start (bindFile config mail file) fun _ _ => True := by
  refine .look fun work _ _ => ?_
  split
  · exact .done
  dsimp only
  split
  · exact .done
  split
  · exact succeeds_warnFile file _
  · refine .forM fun entry _ later _ => .look fun work hvalid _ => ?_
    split
    · exact .done
    · rename_i site hlocate
      have hsite := siteIn_of_locate? hlocate
      obtain ⟨of, -, himports⟩ := hsite.imports
      refine succeeds_bindSite _ (hvalid.program.sound.placed (.ofVariable of) _ himports) ?_
      intro item hitem
      obtain ⟨of, -, hof⟩ := hsite.aliases item hitem
      exact ⟨trivial, hvalid.program.sound.placed (.ofVariable of) _ hof⟩

end Resolver

end Capabilities
