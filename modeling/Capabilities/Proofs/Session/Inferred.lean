import Capabilities.Proofs.Resolver.Attribution
import Capabilities.Proofs.Session.Providers
import Capabilities.Script.Parse

/-!
# What inference finds stays

A value of a file that is no member holds what inference has put into it for as long as the file is
not loaded again: registering adds to the store, and binding another file writes to places of that
file only. A pass takes a type back from such a value in one case. The value is a variable that the
first entry function gives to an import, the name of that import was bound to this very type, and
now another one is registered for it. Who has put the type into the variable is noted nowhere, so
one that inference had found there before goes too.
-/

namespace Capabilities.Inference

open Script Capabilities.Types

/-- The value of a variable or of an expression of a file. -/
def FileInference.Finds (inference : FileInference) (value : ValueId) : Prop :=
  (∃ scope name, inference.scopes.own? scope name = some value) ∨
    ∃ id, inference.expression? id = some value

theorem FileInference.finds_move {shift : Shift} {inference : FileInference} {value : ValueId}
    (h : (inference.move shift).Finds value) :
    ∃ inner, inference.Finds inner ∧ value = inner.move shift := by
  rcases h with ⟨scope, name, hvalue⟩ | ⟨id, hvalue⟩
  · rw [FileInference.own?_move] at hvalue
    obtain ⟨inner, hinner, rfl⟩ := Option.map_eq_some_iff.1 hvalue
    exact ⟨inner, Or.inl ⟨scope, name, hinner⟩, rfl⟩
  · rw [FileInference.expression?_move] at hvalue
    obtain ⟨inner, hinner, rfl⟩ := Option.map_eq_some_iff.1 hvalue
    exact ⟨inner, Or.inr ⟨id, hinner⟩, rfl⟩

theorem Housed.lt_of_finds {shift : Shift} {base own whole : Store} {file : String}
    {inference : FileInference} {value : ValueId}
    (h : Housed shift base file inference own whole) (hfinds : inference.Finds value) :
    value.index < own.values.size := by
  rcases hfinds with ⟨scope, name, hvalue⟩ | ⟨id, hvalue⟩
  · have hplace : inference.locals file ⟨file, scope, name⟩ = some value :=
      (if_pos rfl).trans hvalue
    exact h.inside.sound.placed (.ofVariable ⟨file, scope, name⟩) value hplace
  · exact h.noted id value hvalue

end Capabilities.Inference

namespace Capabilities.Resolver

open Host Script Session Capabilities.Types Capabilities.Module

variable {config : Config} {file path text : String} {value : ValueId} {type : TypeId}

/-! ### Loading -/

variable [Parser]

/-- Registering what a file provides adds to what inference has left. -/
theorem gains_provision {inference : Inference.FileInference} {own : Store} (config : Config)
    (hown : Inference.inferFile file (parse text) .initial = (.ok inference, own)) :
    Store.Gains own (provision config file text).store := by
  have hfile : (Work.alone (.ofText file text) inference own).program.file? file =
      some (.ofText file text) := by
    simp [Work.alone, Program.file?, Keyed.get?, SourceFile.ofText]
  obtain ⟨next, hrun, hattributes⟩ := attributes_synthesize config (valid_alone hown) hfile
  rw [provision_eq hown hrun]
  exact hattributes.gains

/-- A value is none of the members that passes write to, and no variable of another file. -/
structure Belonging (file : String) (value : ValueId) (work : Work) : Prop where
  noMember : NoMember work value
  own : ∀ of, work.program.locals of = some value → of.file = file

section Loads

variable {origin : Option String} {shift : Shift} {asked : List PendingFile} {before after : Work}

/-- What passes may write to when a file has been loaded, they might have written to before. -/
theorem Work.Loads.member_before (h : Work.Loads config path text origin shift asked before after)
    (hready : Ready config before) {place : Place}
    (hmember : memberOf (fun owner => ∃ file, after.state.importsObject? file = some owner) place)
    (hplace : after.program.store.place? after.program.locals place = some value) :
    memberOf (fun owner => ∃ file, before.state.importsObject? file = some owner) place ∧
      before.program.store.place? before.program.locals place = some value := by
  cases place with
  | ofVariable of => cases hmember
  | result function => cases hmember
  | member owner name =>
    obtain ⟨file, hobject⟩ := hmember
    rw [h.importsObject?] at hobject
    split at hobject
    · cases hobject
    · refine ⟨⟨file, hobject⟩, ?_⟩
      simp only [Store.place?, Store.member?] at hplace ⊢
      rw [h.object? (hready.lt_object hobject)] at hplace
      exact hplace
  | property owner name =>
    refine ⟨trivial, ?_⟩
    by_cases hlt : owner.index < before.program.store.values.size
    · simp only [Store.place?] at hplace ⊢
      rw [h.value? hlt] at hplace
      exact hplace
    · -- the file's own values have no members yet
      have hle := Nat.not_lt.1 hlt
      rw [h.inside.embeds.base_values] at hle
      obtain ⟨index, hindex⟩ := Nat.exists_eq_add_of_le' hle
      have howner : owner = (⟨index⟩ : ValueId).move shift := by
        rw [ValueId.move, ← hindex]
      rw [howner, h.members_self] at hplace
      cases hplace

theorem Work.Loads.belonging (h : Work.Loads config path text origin shift asked before after)
    (hready : Ready config before) (hvalue : Belonging file value before) :
    Belonging file value after := by
  refine ⟨⟨?_, ?_⟩, ?_⟩
  · exact Nat.lt_of_lt_of_le hvalue.noMember.lt (h.inside.embeds.gains h.inside.sound).values_le
  · intro place hmember hplace
    obtain ⟨hmember', hplace'⟩ := h.member_before hready hmember hplace
    exact hvalue.noMember.out place hmember' hplace'
  · intro of hof
    rw [h.locals] at hof
    split at hof
    · obtain ⟨inner, _, rfl⟩ := Option.map_eq_some_iff.1 hof
      have hlt := hvalue.noMember.lt
      rw [h.inside.embeds.base_values] at hlt
      exact absurd (ValueId.le_move shift inner) (Nat.not_le.2 hlt)
    · exact hvalue.own of hof

/-- The values that inference has found belong to the file, and hold what inference has left. -/
theorem Work.Loads.found (h : Work.Loads config path text origin shift asked before after)
    (hready : Ready config before) {base whole : Store} {inference : Inference.FileInference}
    {own : Store} {inner : ValueId}
    (hown : Inference.inferFile path (parse text) .initial = (.ok inference, own))
    (hhoused : Inference.Housed shift base path inference own whole)
    (hfinds : inference.Finds inner) :
    Belonging path (inner.move shift) after ∧
      after.program.store.typesOf (inner.move shift) = whole.typesOf (inner.move shift) := by
  have hlt := hhoused.lt_of_finds hfinds
  have hgains := gains_provision config hown
  have hnew : ¬(inner.move shift).index < before.program.store.values.size := by
    rw [h.inside.embeds.base_values]
    exact Nat.not_lt.2 (ValueId.le_move shift inner)
  refine ⟨⟨⟨?_, ?_⟩, ?_⟩, ?_⟩
  · exact h.inside.embeds.lt_values (Nat.lt_of_lt_of_le hlt hgains.values_le)
  · intro place hmember hplace
    obtain ⟨_, hplace'⟩ := h.member_before hready hmember hplace
    exact hnew (hready.sound.placed place _ hplace')
  · intro of hof
    rw [h.locals] at hof
    split at hof
    · assumption
    · exact absurd (hready.sound.placed (.ofVariable of) _ hof) hnew
  · rw [h.inside.embeds.typesOf, hhoused.inside.embeds.typesOf, hgains.typesOf hlt]

end Loads

/-! ### A pass -/

/-- A variable that stands for an import of a file is one of that file. -/
theorem StandsFor.variable {program : Program} {name : String}
    (h : StandsFor config program file value name) :
    ∃ of : Variable, of.file = file ∧ program.locals of = some value := by
  obtain ⟨text, names, site, rest, _, _, _, hsites, hvalue⟩ := h
  have hsite : site ∈ sites config program file (parse text) := by simp [hsites]
  obtain ⟨_, _, hlocate⟩ := List.mem_filterMap.1 hsite
  obtain ⟨of, hfile, hof⟩ := variable_of_mem_named (siteIn_of_locate? hlocate) hvalue
  exact ⟨of, hfile.trans (locate?_eq_some hlocate).1, hof⟩

/-- A pass takes back nothing but a type that was bound to a name the value stands for. -/
theorem Belonging.held_bindProgram {work : Work} (h : Belonging file value work)
    (hready : Ready config work) (mail : Mail) (htype : type ∈ work.program.store.typesOf value)
    (hkept : ∀ name, StandsFor config work.program file value name →
      work.state.bound? file name = some type →
      (bindProgram config mail work).state.bound? file name = some type) :
    type ∈ (bindProgram config mail work).program.store.typesOf value := by
  refine (hready.retains_bindProgram mail).held value type h.noMember htype ?_
  -- it can stand for imports of its own file only
  intro other name hstands hbound
  obtain ⟨of, rfl, hof⟩ := hstands.variable
  have hfile := h.own of hof
  rw [hfile] at hstands hbound ⊢
  exact hkept name hstands hbound

theorem maintained_belonging (config : Config) (file : String) (value : ValueId) :
    Maintained config fun _ work => Belonging file value work := by
  constructor
  · intro _ work queue failed h
    exact ⟨⟨h.noMember.lt, h.noMember.out⟩, h.own⟩
  · intro _ path text origin shift asked before after hready _ hloads h
    exact hloads.belonging hready h
  · intro _ work path text _ h
    refine ⟨⟨h.noMember.lt, ?_⟩, ?_⟩
    · intro place hmember
      cases place with
      | ofVariable of => cases hmember
      | result function => cases hmember
      | member owner name => exact h.noMember.out (.member owner name) hmember
      | property owner name => exact h.noMember.out (.property owner name) hmember
    · intro of hof
      refine h.own of ?_
      by_cases hfile : of.file = path
      · simp [Program.locals, Program.localValue?, Program.updateFile, Keyed.get?_erase, hfile]
          at hof
      · rw [← hof]
        simp [Program.locals, Program.localValue?, Program.updateFile,
          Keyed.get?_erase_of_ne _ hfile]
  · intro _ work mail hready h
    obtain ⟨_, hadvances, _⟩ := hready.bindProgram mail
    refine ⟨(hready.retains_bindProgram mail).noMember value h.noMember, ?_⟩
    intro of hof
    rw [hadvances.locals] at hof
    exact h.own of hof

theorem outlasts_belonging (config : Config) (file : String) (value : ValueId) :
    Engine.Outlasts config (fun _ work => Belonging file value work) fun _ _ => True :=
  ⟨maintained_belonging config file value, fun _ _ _ _ => trivial, fun _ _ _ _ _ _ _ => trivial⟩

end Capabilities.Resolver

namespace Capabilities.Session

open Host Script Resolver Capabilities.Types Capabilities.Module

namespace Engine

variable {config : Config} {others : Nat} {engine next last : Engine Installed}
  {resolver : ResolverPlugin} {mail : Mail} {read : String → Option String} {file : String}
  {value : ValueId} {type : TypeId} {kept : List (String × String) → Work → Prop}
  {lasting : State → Store → Prop}

/-! ### Actions -/

def bound? (engine : Engine Installed) (file name : String) : Option TypeId :=
  engine.resolver?.bind (·.state.bound? file name)

theorem Hosts.bound? (h : engine.Hosts resolver others) (file name : String) :
    engine.bound? file name = resolver.state.bound? file name := by
  unfold Engine.bound?
  rw [h.resolver?]
  rfl

def loaded [Parser] (engine : Engine Installed) : Action → List String
  | .step step => engine.loadsOf step
  | .load read mail =>
    match engine.program.queue with
    | [] => []
    | pending :: queue =>
      if ((engine.popping queue).load read mail pending).1 then [pending.path] else []
  | .look _ => []

/-- A file is what it was and is bound to what it was, and all values have at least the types they
    had. -/
structure Undisturbed (file : String) (engine next : Engine Installed) : Prop where
  held : ∀ value type, type ∈ engine.program.store.typesOf value →
    type ∈ next.program.store.typesOf value
  source : next.program.files.get? file = engine.program.files.get? file
  bound : ∀ name, next.bound? file name = engine.bound? file name

theorem Undisturbed.refl (file : String) (engine : Engine Installed) :
    Undisturbed file engine engine :=
  ⟨fun _ _ => id, rfl, fun _ => rfl⟩

theorem Undisturbed.trans (h : Undisturbed file engine next) (h' : Undisturbed file next last) :
    Undisturbed file engine last :=
  ⟨fun value type htype => h'.held value type (h.held value type htype), h'.source.trans h.source,
    fun name => (h'.bound name).trans (h.bound name)⟩

theorem Hosts.undisturbed {later : ResolverPlugin} (h : engine.Hosts resolver others)
    (h' : next.Hosts later others)
    (hbinding : later.state.binding? file = resolver.state.binding? file)
    (hfile : next.program.files.get? file = engine.program.files.get? file)
    (hvalues : ∀ value : ValueId, value.index < engine.program.store.values.size →
      next.program.store.value? value = engine.program.store.value? value) :
    Undisturbed file engine next := by
  refine ⟨?_, hfile, ?_⟩
  · intro value type htype
    rw [Store.typesOf_of_value?_eq (hvalues value (Store.lt_of_mem_typesOf htype))]
    exact htype
  · intro name
    rw [h.bound?, h'.bound?]
    unfold State.bound?
    rw [hbinding]

section

variable [Parser]

/-- Loading another file disturbs nothing, whether the resolver is enabled or not. -/
theorem Watches.undisturbed_load {pending : PendingFile} {queue : List PendingFile}
    (h : Watches config kept lasting others engine resolver)
    (hqueue : engine.program.queue = pending :: queue)
    (hfile : file ∉ engine.loaded (.load read mail)) :
    Undisturbed file engine (engine.loadNext read mail pending queue) := by
  have hpopped : (engine.popping queue).Hosts resolver others := h.hosts
  have hne : ((engine.popping queue).load read mail pending).1 = true → file ≠ pending.path := by
    intro hsucceeded
    unfold loaded at hfile
    simp only [hqueue, hsucceeded, if_true] at hfile
    exact fun heq => hfile (List.mem_singleton.2 heq)
  cases htext : pending.text.or (read pending.path) with
  | none =>
    rw [loadNext_eq (load_unreadable htext)]
    exact h.hosts.undisturbed h.hosts rfl rfl fun _ _ => rfl
  | some text =>
    by_cases hon : (resolver.poll mail).isEnabled = true
    · obtain ⟨texts, hworks⟩ := h.works (h.waits.isEnabled hon)
      obtain rfl := hworks.settings
      have hready : Ready resolver.config (resolver.work (engine.popping queue).program) :=
        hworks.ready.requeue queue engine.program.failed
      obtain ⟨next, later, asked, hload, hhosts, _, _, _, hloads⟩ :=
        hpopped.load hon hready htext
      have hother := hne (congrArg Prod.fst hload)
      rw [loadNext_eq hload]
      refine h.hosts.undisturbed hhosts ?_ (hloads.get?_of_ne hother) fun _ => hloads.value?
      have hbinding := hloads.binding? file
      rw [if_neg hother] at hbinding
      exact hbinding
    · obtain ⟨locals, hsound⟩ := h.sound
      obtain ⟨hhosts, hgains, hsucceeded, _, hfiles⟩ :=
        hpopped.load_disabled hon hsound.primitive htext
      exact h.hosts.undisturbed hhosts rfl (hfiles file (hne hsucceeded)) hgains.value

theorem drain_loaded (steps : Nat) (engine : Engine Installed) (read : String → Option String)
    (mail : Mail) : (engine.drain read mail (steps + 1)).1 =
      engine.loaded (.load read mail) ++
        ((engine.act (.load read mail)).drain read mail steps).1 := by
  unfold loaded
  cases hqueue : engine.program.queue with
  | nil =>
    rw [act_load_nil read mail hqueue, drain_of_empty hqueue, drain_of_empty hqueue]
    rfl
  | cons pending queue =>
    rw [act_load_cons read mail hqueue, drain_succ _ hqueue]
    dsimp only
    split
    · rfl
    · rfl

/-- Loading the queue disturbs no file that is not among those loaded. -/
theorem Watches.undisturbed_drain (h : Watches config kept lasting others engine resolver)
    (hlasting : Outlasts config kept lasting) (steps : Nat)
    (hfile : file ∉ (engine.drain read mail steps).1) :
    Undisturbed file engine (engine.drain read mail steps).2.2 ∧
      ∃ drained, Watches config kept lasting others (engine.drain read mail steps).2.2 drained := by
  induction steps generalizing engine resolver with
  | zero => exact ⟨.refl file engine, resolver, h⟩
  | succ steps ih =>
    rw [drain_loaded, List.mem_append, not_or] at hfile
    cases hqueue : engine.program.queue with
    | nil =>
      rw [drain_nil _ hqueue]
      exact ⟨.refl file engine, resolver, h⟩
    | cons pending queue =>
      rw [drain_cons _ hqueue]
      rw [act_load_cons read mail hqueue] at hfile
      obtain ⟨later, hlater⟩ := h.loadNext hlasting hqueue read mail
      obtain ⟨hrest, hdrained⟩ := ih hlater hfile.2
      exact ⟨(h.undisturbed_load hqueue hfile.1).trans hrest, hdrained⟩

/-- An action does not load a file again, and takes a type back from none of the names that a value
    of the file stands for. -/
structure Spares (config : Config) (file : String) (value : ValueId) (type : TypeId)
    (engine : Engine Installed) (action : Action) : Prop where
  unloaded : file ∉ engine.loaded action
  kept : ∀ name, StandsFor config engine.program file value name →
    engine.bound? file name = some type → (engine.act action).bound? file name = some type

def Along (allowed : Engine Installed → Action → Prop) : Engine Installed → List Action → Prop
  | _, [] => True
  | engine, first :: rest => allowed engine first ∧ Along allowed (engine.act first) rest

instance decidableAlong {allowed : Engine Installed → Action → Prop}
    [hallowed : ∀ engine action, Decidable (allowed engine action)] :
    (engine : Engine Installed) → (actions : List Action) → Decidable (Along allowed engine actions)
  | _, [] => isTrue trivial
  | engine, first :: rest =>
    @instDecidableAnd _ _ (hallowed engine first) (decidableAlong (engine.act first) rest)

theorem Along.mono {allowed more : Engine Installed → Action → Prop} {actions : List Action}
    (h : Along allowed engine actions)
    (hmore : ∀ engine action, allowed engine action → more engine action) :
    Along more engine actions := by
  induction actions generalizing engine with
  | nil => trivial
  | cons first rest ih => exact ⟨hmore engine first h.1, ih h.2⟩

/-- A type is spared if none of the names that the file declares is bound to it. -/
theorem spares_of_bound_ne {text : String} {names : List String} {action : Action}
    (hnames : (declaration .consumes config.entryNames (parse text)).names? = some names)
    (hloaded : file ∉ engine.loaded action)
    (hfile : (engine.program.file? file).map SourceFile.text = some text)
    (hbound : ∀ name ∈ names, engine.bound? file name ≠ some type) :
    Spares config file value type engine action := by
  refine ⟨hloaded, ?_⟩
  rintro name ⟨other, others, _, _, hother, hothers, hname, _⟩ hheld
  rw [hother] at hfile
  cases hfile
  cases hnames.symm.trans hothers
  exact absurd hheld (hbound name hname)

section Belonging

variable (h : Watches config (fun _ work => Belonging file value work) (fun _ _ => True) others
  engine resolver)

include h

theorem Watches.held_look (mail : Mail) (htype : type ∈ engine.program.store.typesOf value)
    (hkept : ∀ name, StandsFor config engine.program file value name →
      engine.bound? file name = some type →
      (engine.dispatch (Plugin.postInfer mail)).bound? file name = some type) :
    type ∈ (engine.dispatch (Plugin.postInfer mail)).program.store.typesOf value := by
  by_cases hon : (resolver.poll mail).isEnabled = true
  · obtain ⟨texts, hworks⟩ := h.works (h.waits.isEnabled hon)
    obtain ⟨first, last, _, _, _, hhosts, hprogram⟩ := h.hosts.dispatch (acts_postInfer mail)
    rw [postInfer_eq _ hon, hworks.settings] at hhosts hprogram
    have hready : Ready config (resolver.work (engine.program.queueing first)) :=
      hworks.ready.requeue _ engine.program.failed
    have hbelongs : Belonging file value (resolver.work (engine.program.queueing first)) :=
      (maintained_belonging config file value).requeue texts _ _ engine.program.failed hworks.holds
    rw [hprogram]
    refine hbelongs.held_bindProgram hready mail htype ?_
    intro name hstands hbound
    have hafter := hkept name (hstands.of_get? rfl) ((h.hosts.bound? file name).trans hbound)
    rw [hhosts.bound?] at hafter
    exact hafter
  · obtain ⟨_, more, hprogram⟩ := h.hosts.dispatch_disabled (acts_postInfer mail)
      fun program => postInfer_disabled hon
    rw [hprogram]
    exact htype

/-- No action that spares a type takes it away. -/
theorem Watches.held_act {action : Action}
    (hspares : Spares config file value type engine action)
    (htype : type ∈ engine.program.store.typesOf value) :
    type ∈ (engine.act action).program.store.typesOf value := by
  cases action with
  | step step =>
    cases step with
    | addFile path text origin =>
      obtain ⟨more, hmore, _⟩ := addFile_eq_queueing engine.program path text origin
      change type ∈ (engine.program.addFile path text origin).2.store.typesOf value
      rw [hmore]
      exact htype
    | updateFile path text => exact htype
    | analyze read mail =>
      -- while other files are loaded nothing is bound anew, so it is the look in the end that
      -- counts
      obtain ⟨hloads, drained, hdrained⟩ :=
        h.undisturbed_drain (outlasts_belonging config file value) engine.pending hspares.unloaded
      refine hdrained.held_look mail (hloads.held value type htype) ?_
      intro name hstands hbound
      rw [hloads.bound] at hbound
      exact hspares.kept name (hstands.of_get? hloads.source.symm) hbound
  | load read mail =>
    cases hqueue : engine.program.queue with
    | nil =>
      rw [act_load_nil read mail hqueue]
      exact htype
    | cons pending queue =>
      rw [act_load_cons read mail hqueue]
      exact (h.undisturbed_load hqueue hspares.unloaded).held value type htype
  | look mail => exact h.held_look mail htype hspares.kept

theorem Watches.held_perform {actions : List Action}
    (hspares : Along (Spares config file value type) engine actions)
    (htype : type ∈ engine.program.store.typesOf value) :
    type ∈ (engine.perform actions).program.store.typesOf value := by
  induction actions generalizing engine resolver with
  | nil => exact htype
  | cons first rest ih =>
    obtain ⟨later, hlater⟩ :=
      (endures_watches (outlasts_belonging config file value) others).act engine first ⟨resolver, h⟩
    exact ih hlater hspares.2 (h.held_act hspares.1 htype)

end Belonging

/-! ### From the moment on that a file is loaded -/

/-- Something else is kept from now on. -/
theorem Watches.withKept {other : List (String × String) → Work → Prop}
    (h : Watches config kept lasting others engine resolver)
    (hother : resolver.isEnabled = true → ∀ texts, other texts (resolver.work engine.program)) :
    Watches config other (fun _ _ => True) others engine resolver := by
  refine ⟨h.hosts, h.waits, h.sound, trivial, ?_⟩
  intro hon
  obtain ⟨texts, hworks⟩ := h.works hon
  exact ⟨texts, hworks.hosts, hworks.settings, hworks.orderly, hworks.ready, hother hon texts,
    hworks.present⟩

theorem Watches.found {pending : PendingFile} {queue : List PendingFile} {text : String}
    {inference : Inference.FileInference} {inferred : Store}
    (h : Watches config kept lasting others engine resolver)
    (hlasting : Outlasts config kept lasting) (hqueue : engine.program.queue = pending :: queue)
    (htext : pending.text.or (read pending.path) = some text)
    (hinfer : Inference.inferFile pending.path (parse text) engine.program.store =
      (.ok inference, inferred)) (hfinds : inference.Finds value) :
    (engine.loadNext read mail pending queue).program.store.typesOf value =
        inferred.typesOf value ∧
      ∃ later, Watches config (fun _ work => Belonging pending.path value work) (fun _ _ => True)
        others (engine.loadNext read mail pending queue) later := by
  have hpopped : (engine.popping queue).Hosts resolver others := h.hosts
  have hinferred : Inference.inferFile pending.path (parse text)
      (engine.popping queue).program.store = (.ok inference, inferred) := hinfer
  obtain ⟨later, hlater⟩ := h.loadNext hlasting hqueue read mail
  obtain ⟨locals, hsound⟩ := h.sound
  obtain ⟨alone, own, whole, hown, hwhole, hhoused⟩ :=
    Inference.inferFile_housed hsound.primitive pending.path (parse text)
  cases hinfer.symm.trans hwhole
  obtain ⟨inner, hinner, rfl⟩ := Inference.FileInference.finds_move hfinds
  by_cases hon : (resolver.poll mail).isEnabled = true
  · obtain ⟨texts, hworks⟩ := h.works (h.waits.isEnabled hon)
    obtain rfl := hworks.settings
    have hready : Ready resolver.config (resolver.work (engine.popping queue).program) :=
      hworks.ready.requeue queue engine.program.failed
    obtain ⟨next, loaded, asked, hload, hhosts, _, _, _, hloads⟩ := hpopped.load hon hready htext
    rw [loadNext_eq hload] at hlater ⊢
    obtain rfl : later = loaded := by
      have hsame := hlater.hosts.resolver?
      have hfound := hhosts.resolver?
      exact Option.some.inj (hsame.symm.trans hfound)
    obtain ⟨hbelongs, htypes⟩ := hloads.found hready hown hhoused hinner
    refine ⟨htypes, later, hlater.withKept fun _ texts => ?_⟩
    exact (maintained_belonging resolver.config pending.path _).requeue texts _
      next.program.queue _ hbelongs
  · obtain ⟨hhosts, _, _, hstore, _⟩ := hpopped.load_disabled hon hsound.primitive htext
    rw [hinferred] at hstore
    have hsame : later = resolver.poll mail := by
      have hfound : (engine.loadNext read mail pending queue).resolver? =
          some (resolver.poll mail) := hhosts.resolver?
      exact Option.some.inj (hlater.hosts.resolver?.symm.trans hfound)
    have hleft : (engine.loadNext read mail pending queue).program.store = inferred := hstore
    refine ⟨by rw [hleft], later, hlater.withKept fun hlaterOn => ?_⟩
    rw [hsame] at hlaterOn
    exact absurd hlaterOn hon

/-- Every type that inference has put into the value of a variable or an expression when a file was
    loaded stays in it, whatever providers are registered, replaced or loaded anew, as long as the
    file is not loaded again and no pass takes this type back from a name that the value stands
    for. -/
theorem inferred_stays (hstart : engine.Starts config others) (first later : List Action)
    {pending : PendingFile} {queue : List PendingFile} {text : String}
    {inference : Inference.FileInference} {inferred : Store}
    (hqueue : (engine.perform first).program.queue = pending :: queue)
    (htext : pending.text.or (read pending.path) = some text)
    (hinfer : Inference.inferFile pending.path (parse text) (engine.perform first).program.store =
      (.ok inference, inferred))
    (hfinds : inference.Finds value) (htype : type ∈ inferred.typesOf value)
    (hspares : Along (Spares config pending.path value type)
      (engine.perform (first ++ [.load read mail])) later) :
    type ∈ (engine.perform (first ++ .load read mail :: later)).program.store.typesOf value := by
  obtain ⟨resolver, hfirst⟩ :=
    (endures_watches (outlasts_registered config) others).perform first hstart.watches
  obtain ⟨htypes, loaded, hloaded⟩ :=
    hfirst.found (outlasts_registered config) hqueue htext hinfer hfinds
  have hload : engine.perform (first ++ [.load read mail]) =
      (engine.perform first).loadNext read mail pending queue := by
    rw [perform_append]
    exact act_load_cons read mail hqueue
  rw [hload] at hspares
  have hrest : engine.perform (first ++ .load read mail :: later) =
      ((engine.perform first).loadNext read mail pending queue).perform later := by
    rw [← hload, ← perform_append, List.append_assoc]
    rfl
  rw [hrest]
  refine hloaded.held_perform hspares ?_
  rw [htypes]
  exact htype

end

/-- A consumer that writes a number and a string of its own to the variable for its import. -/
def ownText : String :=
  "main.consumes = [\"x\"]; function main(o, imports, register) \x7b " ++
    "var a = imports.x; a = 1; a = \"\" \x7d"

def ownStart : List Action := [.step (.addFile "b.js" (some ownText) none)]

/-- Once it is loaded, a provider of a number is added, and then it provides an object instead. -/
def ownRest : List Action :=
  [.step (.addFile "a.js"
      (some "function main(o, imports, register) \x7b register(null, \x7b x: 1 \x7d) \x7d") none),
    .step (.analyze (fun _ => none) []),
    .step (.updateFile "a.js"
      "function main(o, imports, register) \x7b register(null, \x7b x: \x7b\x7d \x7d) \x7d"),
    .step (.analyze (fun _ => none) [])]

/-- Value 7 is that of the variable. -/
theorem performed_own :
    ((Inference.inferFile "b.js" (parse ownText) .initial).1.toOption.bind fun inference =>
      inference.scopes.own? 8 "a") = some ⟨7⟩ ∧
    (Inference.inferFile "b.js" (parse ownText) .initial).2.typesOf ⟨7⟩ =
      [Store.primitive .number, Store.primitive .string] ∧
    (declaration .consumes ["main", "plugin"] (parse ownText)).names? = some ["x"] ∧
    Along (fun engine action => "b.js" ∉ engine.loaded action ∧
        (engine.program.file? "b.js").map SourceFile.text = some ownText ∧
        ∀ name ∈ ["x"], engine.bound? "b.js" name ≠ some (Store.primitive .string))
      (alone.perform (ownStart ++ [.load (fun _ => none) []])) ownRest ∧
    Store.primitive .number ∉ (alone.perform
      (ownStart ++ .load (fun _ => none) [] :: ownRest)).program.store.typesOf ⟨7⟩ := by
  decide +kernel

/-- The string stays through all of this. -/
theorem inferred_stays_own :
    Store.primitive .string ∈ (alone.perform
      (ownStart ++ .load (fun _ => none) [] :: ownRest)).program.store.typesOf ⟨7⟩ := by
  obtain ⟨hvalue, htypes, hnames, halong, _⟩ := performed_own
  obtain ⟨inference, hinference, hown⟩ := Option.bind_eq_some_iff.1 hvalue
  generalize hinfer : Inference.inferFile "b.js" (parse ownText) .initial = found at *
  obtain ⟨answer, inferred⟩ := found
  cases answer with
  | error error => cases hinference
  | ok found =>
    cases hinference
    have hspares : Along (Spares .default "b.js" ⟨7⟩ (Store.primitive .string))
        (alone.perform (ownStart ++ [.load (fun _ => none) []])) ownRest :=
      halong.mono fun engine action ⟨hloaded, hfile, hbound⟩ =>
        spares_of_bound_ne hnames hloaded hfile hbound
    refine inferred_stays starts_alone ownStart ownRest rfl rfl hinfer (Or.inl ⟨8, "a", hown⟩) ?_
      hspares
    rw [htypes]
    exact List.mem_cons_of_mem _ List.mem_cons_self

/-- The number that inference has put into the variable is gone in the end, though its file was not
    loaded again. -/
theorem inferred_taken_back :
    ((Inference.inferFile "b.js" (parse ownText) .initial).1.toOption.bind fun inference =>
      inference.scopes.own? 8 "a") = some ⟨7⟩ ∧
    Store.primitive .number ∈
      (Inference.inferFile "b.js" (parse ownText) .initial).2.typesOf ⟨7⟩ ∧
    (alone.perform ownStart).program.store = .initial ∧
    Along (fun engine action => "b.js" ∉ engine.loaded action)
      (alone.perform (ownStart ++ [.load (fun _ => none) []])) ownRest ∧
    Store.primitive .number ∉ (alone.perform
      (ownStart ++ .load (fun _ => none) [] :: ownRest)).program.store.typesOf ⟨7⟩ := by
  obtain ⟨hvalue, htypes, _, halong, hgone⟩ := performed_own
  refine ⟨hvalue, ?_, rfl, halong.mono fun _ _ hspared => hspared.1, hgone⟩
  rw [htypes]
  exact List.mem_cons_self

end Engine

end Capabilities.Session
