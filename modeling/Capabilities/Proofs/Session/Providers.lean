import Capabilities.Proofs.Session.Actions
import Capabilities.Proofs.Session.Analysis
import Capabilities.Proofs.Session.Chronicle
import Capabilities.Script.Parse

/-!
# Registered types do not change

From a registered type only types of the block can be reached that was left when its text was
loaded. Nothing is ever written to these: inference appends to the store, registering makes new
types, and binding writes to variables, to their members and to imports objects, which are behind
all blocks of their time. A resolver that is disabled leaves the store alone, and stays disabled.
-/

namespace Capabilities.Session

open Host Script Resolver Capabilities.Types

namespace Engine

variable {config : Config} {others : Nat} {engine : Engine Installed} {resolver : ResolverPlugin}
  {mail : Mail} {read : String → Option String} {path : String} {program : Program}
  {hook : Installed → Program → Installed × Program}
  {action : ResolverPlugin → Program → ResolverPlugin × Program}

/-! ### A disabled resolver -/

theorem beforeLoad_disabled (h : ¬(resolver.poll mail).isEnabled = true) :
    ResolverPlugin.beforeLoad mail path resolver program = (resolver.poll mail, program) :=
  if_neg h

theorem afterLoad_disabled (h : ¬(resolver.poll mail).isEnabled = true) :
    ResolverPlugin.afterLoad mail path resolver program = (resolver.poll mail, program) :=
  if_neg h

theorem postInfer_disabled (h : ¬(resolver.poll mail).isEnabled = true) :
    ResolverPlugin.postInfer mail resolver program = (resolver.poll mail, program) :=
  if_neg h

/-- With a disabled resolver a hook only asks for files. -/
theorem Hosts.dispatch_disabled (h : engine.Hosts resolver others) (hacts : Acts hook action)
    (haction : ∀ program, action resolver program = (resolver.poll mail, program)) :
    (engine.dispatch hook).Hosts (resolver.poll mail) others ∧
      ∃ more, (engine.dispatch hook).program = engine.program.queueing more := by
  obtain ⟨first, last, _, _, _, hhosts, hprogram⟩ := h.dispatch hacts
  rw [haction] at hhosts hprogram
  refine ⟨hhosts, first ++ last, ?_⟩
  rw [hprogram, queueing_queueing]

section

variable [Parser]

/-- With a disabled resolver a file that is loaded leaves what was in the store and all other files
    alone. Only inference adds to the store. -/
theorem Hosts.load_disabled (h : engine.Hosts resolver others)
    (hoff : ¬(resolver.poll mail).isEnabled = true)
    (hprimitives : engine.program.store.HasPrimitives) {pending : PendingFile} {text : String}
    (htext : pending.text.or (read pending.path) = some text) :
    (engine.load read mail pending).2.Hosts (resolver.poll mail) others ∧
      Store.Gains engine.program.store (engine.load read mail pending).2.program.store ∧
      (engine.load read mail pending).1 = true ∧
      (engine.load read mail pending).2.program.store =
        (Inference.inferFile pending.path (parse text) engine.program.store).2 ∧
      ∀ other, other ≠ pending.path →
        (engine.load read mail pending).2.program.files.get? other =
          engine.program.files.get? other := by
  have hopened : (engine.opening pending text).Hosts resolver others := h
  obtain ⟨hhosts, more, hprogram⟩ := hopened.dispatch_disabled (acts_beforeLoad mail pending.path)
    fun program => beforeLoad_disabled hoff
  generalize hannounced : (engine.opening pending text).dispatch
    (Plugin.beforeLoad mail pending.path) = announced at hhosts hprogram
  have hloaded : announced.program.files.get? pending.path =
      some ⟨.ofText pending.path text, .empty, pending.origin⟩ := by
    rw [hprogram]
    exact Keyed.get?_put_self _ _ _
  obtain ⟨inference, own, whole, _, hwhole, hhoused⟩ :=
    Inference.inferFile_housed hprimitives pending.path (parse text)
  have hinfer : Inference.inferFile pending.path (parse text) announced.program.store =
      (.ok (inference.move hprimitives.frontier), whole) := by
    rw [hprogram]
    exact hwhole
  rw [load_inferred htext hannounced hloaded hinfer]
  have hinferred : (announced.inferring whole pending.path
      ⟨.ofText pending.path text, .empty, pending.origin⟩
      (inference.move hprimitives.frontier)).Hosts (resolver.poll mail) others := hhosts
  have hoff' : ¬((resolver.poll mail).poll mail).isEnabled = true := by
    rw [poll_poll]
    exact hoff
  obtain ⟨hhosts', more', hprogram'⟩ := hinferred.dispatch_disabled
    (acts_afterLoad mail pending.path) fun program => afterLoad_disabled hoff'
  rw [poll_poll] at hhosts'
  refine ⟨hhosts', ?_, rfl, ?_, ?_⟩
  · rw [hprogram']
    exact hhoused.inside.embeds.gains hhoused.inside.sound
  · rw [hprogram', hwhole]
    rfl
  · intro other hother
    rw [hprogram']
    refine (Keyed.get?_put_of_ne _ _ hother).trans ?_
    rw [hprogram]
    exact Keyed.get?_put_of_ne _ _ hother

/-! ### Whether the resolver is enabled or not -/

/-- What follows from what is kept while the resolver is enabled, and goes on to hold while the
    store only gains. -/
structure Outlasts (config : Config) (kept : List (String × String) → Work → Prop)
    (lasting : State → Store → Prop) : Prop extends Maintained config kept where
  holds : ∀ texts work, Ready config work → kept texts work →
    lasting work.state work.program.store
  gains : ∀ state before after locals, before.Sound locals → Store.Gains before after →
    lasting state before → lasting state after

/-- What a session has from a moment on, whatever becomes of its resolver. -/
structure Watches (config : Config) (kept : List (String × String) → Work → Prop)
    (lasting : State → Store → Prop) (others : Nat) (engine : Engine Installed)
    (resolver : ResolverPlugin) : Prop where
  hosts : engine.Hosts resolver others
  waits : resolver.Waits
  sound : ∃ locals, engine.program.store.Sound locals
  lasts : lasting resolver.state engine.program.store
  works : resolver.isEnabled = true → ∃ texts, Works config kept others texts engine resolver

variable {kept : List (String × String) → Work → Prop} {lasting : State → Store → Prop}
  {texts : List (String × String)}

theorem Works.watches (h : Works config kept others texts engine resolver)
    (hlasting : Outlasts config kept lasting) (hwaits : resolver.Waits) :
    Watches config kept lasting others engine resolver :=
  ⟨h.hosts, hwaits, ⟨_, h.ready.sound⟩, hlasting.holds texts _ h.ready h.holds, fun _ => ⟨texts, h⟩⟩

/-- A disabled resolver does not come back. -/
theorem Watches.disabled {next : Engine Installed}
    (h : Watches config kept lasting others engine resolver)
    (hlasting : Outlasts config kept lasting) (hoff : ¬(resolver.poll mail).isEnabled = true)
    (hhosts : next.Hosts (resolver.poll mail) others)
    (hgains : Store.Gains engine.program.store next.program.store) :
    Watches config kept lasting others next (resolver.poll mail) := by
  obtain ⟨locals, hsound⟩ := h.sound
  exact ⟨hhosts, h.waits.poll mail, ⟨locals, hgains.sound locals hsound⟩,
    hlasting.gains _ _ _ locals hsound hgains h.lasts, fun hon => absurd hon hoff⟩

/-- Steps that leave the store and the resolver alone. -/
theorem Watches.withProgram {program : Program}
    (h : Watches config kept lasting others engine resolver)
    (hstore : program.store = engine.program.store)
    (hworks : ∀ texts, Works config kept others texts engine resolver →
      Works config kept others texts { engine with program := program } resolver) :
    Watches config kept lasting others { engine with program := program } resolver := by
  refine ⟨h.hosts, h.waits, ?_, ?_, ?_⟩
  · rw [hstore]
    exact h.sound
  · rw [hstore]
    exact h.lasts
  · intro hon
    obtain ⟨texts, hold⟩ := h.works hon
    exact ⟨texts, hworks texts hold⟩

theorem Watches.loadNext {pending : PendingFile} {queue : List PendingFile}
    (h : Watches config kept lasting others engine resolver)
    (hlasting : Outlasts config kept lasting) (hqueue : engine.program.queue = pending :: queue)
    (read : String → Option String) (mail : Mail) :
    ∃ later, Watches config kept lasting others (engine.loadNext read mail pending queue)
      later := by
  let popped : Engine Installed := { engine with program := { engine.program with queue := queue } }
  cases htext : pending.text.or (read pending.path) with
  | none =>
    have hload : popped.load read mail pending = (false, popped) := load_unreadable htext
    have hnext := loadNext_eq hload
    refine ⟨resolver, ?_⟩
    rw [hnext]
    refine h.withProgram rfl fun texts hworks => ?_
    have hover := (hworks.passOver hlasting.toMaintained hqueue read mail htext).2
    rw [hnext] at hover
    exact hover
  | some text =>
    by_cases hon : (resolver.poll mail).isEnabled = true
    · obtain ⟨texts, hworks⟩ := h.works (h.waits.isEnabled hon)
      obtain ⟨loaded, more, hloaded, hbecomes, _⟩ :=
        hworks.loadNext hlasting.toMaintained read hon hqueue
      exact ⟨loaded, hloaded.watches hlasting (hbecomes.waits h.waits)⟩
    · obtain ⟨locals, hsound⟩ := h.sound
      obtain ⟨hhosts, hgains, _⟩ := Hosts.load_disabled
        (show popped.Hosts resolver others from h.hosts) hon hsound.primitive htext
      exact ⟨resolver.poll mail, h.disabled hlasting hon hhosts hgains⟩

theorem Watches.look (h : Watches config kept lasting others engine resolver)
    (hlasting : Outlasts config kept lasting) (mail : Mail) :
    ∃ later, Watches config kept lasting others (engine.dispatch (Plugin.postInfer mail))
      later := by
  by_cases hon : (resolver.poll mail).isEnabled = true
  · obtain ⟨texts, hworks⟩ := h.works (h.waits.isEnabled hon)
    obtain ⟨looked, hlooked, hbecomes, _⟩ := hworks.look hlasting.toMaintained hon
    exact ⟨looked, hlooked.watches hlasting (hbecomes.waits h.waits)⟩
  · obtain ⟨hhosts, more, hprogram⟩ := h.hosts.dispatch_disabled (acts_postInfer mail)
      fun program => postInfer_disabled hon
    refine ⟨resolver.poll mail, h.disabled hlasting hon hhosts ?_⟩
    rw [hprogram]
    exact .refl _

/-- What lasts does so in every part of a session. -/
theorem endures_watches (hlasting : Outlasts config kept lasting) (others : Nat) :
    Endures fun engine => ∃ resolver, Watches config kept lasting others engine resolver := by
  constructor
  · rintro engine path text origin ⟨resolver, h⟩
    obtain ⟨more, hmore, _⟩ := addFile_eq_queueing engine.program path text origin
    refine ⟨resolver, h.withProgram ?_ fun texts hworks => ?_⟩
    · rw [hmore]
      rfl
    · exact hworks.addFile hlasting.toMaintained path text origin
  · rintro engine path text ⟨resolver, h⟩
    exact ⟨resolver, h.withProgram rfl fun texts hworks =>
      hworks.updateFile hlasting.toMaintained path text⟩
  · rintro engine read mail pending queue hqueue ⟨resolver, h⟩
    exact h.loadNext hlasting hqueue read mail
  · rintro engine mail ⟨resolver, h⟩
    exact h.look hlasting mail

/-! ### Registered types -/

/-- What is registered is in the store. -/
def Registered (state : State) (store : Store) : Prop :=
  ∀ name type, state.registry.lookup? name = some type → type.index < store.types.size

theorem outlasts_registered (config : Config) :
    Outlasts config (Chronicle config) Registered := by
  refine ⟨(invariant_chronicle config).toMaintained, fun _ _ hready _ => hready.registered, ?_⟩
  intro state before after locals _ hgains h name type hregistered
  exact Nat.lt_of_lt_of_le (h name type hregistered) hgains.types_le

theorem Starts.watches (h : engine.Starts config others) :
    ∃ resolver, Watches config (Chronicle config) Registered others engine resolver := by
  obtain ⟨resolver, hhosts, hfresh, hprogram⟩ := h
  exact ⟨resolver, (Works.start hhosts hfresh hprogram (invariant_chronicle config)).watches
    (outlasts_registered config) hfresh.waits⟩

variable {former : Store} {type : TypeId}

/-- What could be reached from a type is what it was, and none of it stands for imports. -/
structure Guards (former : Store) (type : TypeId) (work : Work) : Prop where
  unchanged : Store.Unchanged former type work.program.store
  foreign : ∀ other, former.Reaches type other → ∀ file,
    work.state.importsObject? file ≠ some other

theorem maintained_guards (config : Config) (former : Store) (type : TypeId) :
    Maintained config fun _ work => Guards former type work := by
  constructor
  · intro _ work queue failed h
    exact ⟨h.unchanged, h.foreign⟩
  · intro _ path text origin shift asked before after hready _ hloads h
    refine ⟨h.unchanged.trans hloads.types_le fun other _ hlt =>
      typeStays_of_loads hloads hready hlt, ?_⟩
    intro other hreaches file hobject
    rw [hloads.importsObject?] at hobject
    split at hobject
    · cases hobject
    · exact h.foreign other hreaches file hobject
  · intro _ work path text _ h
    exact ⟨h.unchanged, h.foreign⟩
  · intro _ work mail hready h
    obtain ⟨_, _, hpreserves, _⟩ := hready.bindProgram mail
    -- a new imports object is a new type, so it cannot be one that was reached before
    have hforeign : ∀ other, former.Reaches type other → ∀ file,
        (bindProgram config mail work).state.importsObject? file ≠ some other := by
      intro other hreaches file hobject
      rcases hpreserves.fresh file other hobject with hbefore | hle
      · exact h.foreign other hreaches file hbefore
      · exact absurd (h.unchanged other hreaches).2 (Nat.not_lt.2 hle)
    exact ⟨h.unchanged.trans hpreserves.types_le fun other hreaches hlt =>
      hpreserves.types other hlt (hforeign other hreaches), hforeign⟩

theorem outlasts_guards (config : Config) (former : Store) (type : TypeId) :
    Outlasts config (fun _ work => Guards former type work)
      fun _ store => Store.Unchanged former type store := by
  refine ⟨maintained_guards config former type, fun _ _ _ h => h.unchanged, ?_⟩
  intro _ before after locals hsound hgains h
  exact h.trans hgains.types_le fun other _ hlt => hgains.typeStays hsound hlt

/-- A registered type is looked after from the moment on. -/
theorem Watches.guards {name : String}
    (h : Watches config (Chronicle config) Registered others engine resolver)
    (hregistered : resolver.state.registry.lookup? name = some type) :
    Watches config (fun _ work => Guards engine.program.store type work)
      (fun _ store => Store.Unchanged engine.program.store type store) others engine resolver := by
  obtain ⟨locals, hsound⟩ := h.sound
  have hunchanged := hsound.unchanged (h.lasts name type hregistered)
  refine ⟨h.hosts, h.waits, h.sound, hunchanged, ?_⟩
  intro hon
  obtain ⟨texts, hworks⟩ := h.works hon
  obtain ⟨loads, _, hrecorded⟩ := hworks.holds
  have hguards : Guards engine.program.store type (resolver.work engine.program) :=
    ⟨hunchanged, fun other hreaches file => hrecorded.foreign hregistered hreaches file⟩
  exact ⟨texts, hworks.hosts, hworks.settings, hworks.orderly, hworks.ready, hguards,
    hworks.present⟩

/-- What can be reached from a type never changes once it is registered, whatever is added,
    updated, loaded or bound later, and whether the resolver stays enabled or not. -/
theorem graphStays_of_registered (hstart : engine.Starts config others) (first later : List Action)
    {name : String} (hresolver : (engine.perform first).resolver? = some resolver)
    (hregistered : resolver.state.registry.lookup? name = some type) :
    Store.GraphStays type (engine.perform first).program.store
      (engine.perform (first ++ later)).program.store := by
  obtain ⟨found, hfound⟩ :=
    (endures_watches (outlasts_registered config) others).perform first hstart.watches
  rw [hfound.hosts.resolver?] at hresolver
  cases hresolver
  obtain ⟨last, hlast⟩ := (endures_watches (outlasts_guards config
    (engine.perform first).program.store type) others).perform later
      ⟨resolver, hfound.guards hregistered⟩
  rw [perform_append]
  exact hlast.lasts.graphStays

end

/-- A file that consumes the capability it provides. -/
def selfServedText : String :=
  "main.consumes = [\"fs\"]; function main(options, imports, register) \x7b " ++
    "register(null, \x7b fs: \x7b read: function(path) \x7b return 1 \x7d \x7d \x7d); " ++
    "var own = imports.fs; \x7d"

def selfServedStart : List Action :=
  [.step (.addFile "a.js" (some selfServedText) none), .load (fun _ => none) []]

/-- It is bound to what it provides, loaded anew and bound again, and in the end another file
    provides the capability. -/
def selfServedRest : List Action :=
  [.look [], .step (.updateFile "a.js" selfServedText), .step (.analyze (fun _ => none) []),
    .step (.addFile "b.js" (some providerText) none), .step (.analyze (fun _ => none) [])]

theorem performed_selfServed :
    ((alone.perform selfServedStart).resolver?.bind fun resolver =>
      resolver.state.registry.lookup? "fs") = some ⟨6⟩ ∧
    ((alone.perform (selfServedStart ++ selfServedRest)).resolver?.bind fun resolver =>
      resolver.state.registry.lookup? "fs") = some ⟨0⟩ := by
  decide +kernel

theorem graphStays_selfServed : ∃ resolver type,
    (alone.perform selfServedStart).resolver? = some resolver ∧
    resolver.state.registry.lookup? "fs" = some type ∧
    ((alone.perform (selfServedStart ++ selfServedRest)).resolver?.bind fun resolver =>
      resolver.state.registry.lookup? "fs") ≠ some type ∧
    Store.GraphStays type (alone.perform selfServedStart).program.store
      (alone.perform (selfServedStart ++ selfServedRest)).program.store := by
  obtain ⟨hfirst, hlast⟩ := performed_selfServed
  obtain ⟨resolver, hresolver, hregistered⟩ := Option.bind_eq_some_iff.1 hfirst
  refine ⟨resolver, ⟨6⟩, hresolver, hregistered, ?_, ?_⟩
  · rw [hlast]
    decide
  · exact graphStays_of_registered starts_alone selfServedStart selfServedRest hresolver
      hregistered

end Engine

end Capabilities.Session
