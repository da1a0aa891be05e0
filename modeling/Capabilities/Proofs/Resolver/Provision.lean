import Capabilities.Proofs.Inference.File
import Capabilities.Proofs.Resolver.State
import Capabilities.Resolver.Synthesis

/-!
# What a file provides does not depend on the session

`provision` is what a file on its own registers, with the types it registers. Registering what a
file provides in any session is never refused and comes to the same: the session's registry is
overridden by the file's own, its store gets the file's types behind those that were there, and
nothing else changes but the diagnostics.
-/

namespace Capabilities.Resolver

open Host Script Capabilities.Types Capabilities.Module Session Inference

/-! ### A file on its own -/

/-- What a file on its own comes to: what inference found out about it, the types and values made
    for it, and the providers it registered. -/
structure Provision where
  inference : FileInference
  store : Store
  registry : Registry
deriving DecidableEq, Repr

/-- The work on a session with one file. -/
def Work.alone (source : SourceFile) (inference : FileInference) (store : Store) : Work :=
  ⟨⟨store, ⟨[(source.name, ⟨source, inference, none⟩)]⟩, [], []⟩, .initial, .notRequested⟩

def provision [Parser] (config : Config) (file text : String) : Provision :=
  let source := SourceFile.ofText file text
  match inferFile file source.root .initial with
  | (.ok inference, store) =>
    let work := ((synthesize config file).runOn (.alone source inference store)).2
    ⟨inference, work.program.store, work.state.registry⟩
  | (.error _, store) => ⟨.empty, store, .empty⟩

def ProviderEntry.move (shift : Shift) (entry : ProviderEntry) : ProviderEntry :=
  { entry with type := entry.type.move shift }

/-! ### Work on the file alone and in a session -/

/-- Work on a file alone and the same work in a session, which stood at `before` when it began:
    the stores are embedded, the session's registry is overridden by the other, and everything
    else in the session is as it was, up to what was reported. -/
structure Work.Twin (shift : Shift) (base : Store) (locals : Variables) (source : SourceFile)
    (inference : FileInference) (before own whole : Work) : Prop where
  inside : Store.Inside shift base locals own.program.store whole.program.store
  own_file : own.program.files.get? source.name = some ⟨source, inference, none⟩
  whole_source : whole.program.file? source.name = some source
  expression : ∀ id, whole.program.expression? source.name id =
    (inference.expression? id).map (·.move shift)
  registry : ∀ name, whole.state.registry.provider? name =
    ((own.state.registry.provider? name).map (·.move shift)).or
      (before.state.registry.provider? name)
  provided : ∀ name entry, own.state.registry.provider? name = some entry →
    Located.Within own.program.store entry.type ∧ entry.origin = some source.name
  program : whole.program = { before.program with store := whole.program.store }
  state : whole.state = { before.state with
    registry := whole.state.registry
    warnedFiles := whole.state.warnedFiles
    diagnostics := whole.state.diagnostics }
  table : whole.table = before.table

/-- Work on a file alone and in a session. -/
abbrev workTwins (shift : Shift) (base : Store) (locals : Variables) (source : SourceFile)
    (inference : FileInference) (before : Work) : Twins Work where
  shift := shift
  Related := Work.Twin shift base locals source inference before
  store work := work.program.store

variable {shift : Shift} {base start : Store} {locals : Variables} {source : SourceFile}
  {inference : FileInference} {before : Work}

theorem agree_resolveOnStore {α : Type} [Located α] {good : Store → α → Prop}
    {operation twin : Store → Except StoreError α × Store}
    (h : Store.Matched shift base start operation twin good) :
    (workTwins shift base locals source inference before).Agree start
      (Resolve.onStore operation) (Resolve.onStore twin) good := by
  intro own whole hrelated hgrows
  obtain ⟨answer, next, nextWhole, hown, hwhole, hinside, hgrows', hgood⟩ :=
    h _ _ _ hrelated.inside hgrows
  refine ⟨answer, { own with program := { own.program with store := next } },
    { whole with program := { whole.program with store := nextWhole } }, ?_, ?_, ?_,
    hgrows', hgood⟩
  · change ((operation own.program.store).1,
      { own with program := { own.program with store := (operation own.program.store).2 } }) = _
    rw [hown]
  · change ((twin whole.program.store).1,
      { whole with program := { whole.program with store := (twin whole.program.store).2 } }) = _
    rw [hwhole]
  · refine ⟨hinside, hrelated.own_file, hrelated.whole_source, hrelated.expression,
      hrelated.registry, ?_, ?_, hrelated.state, hrelated.table⟩
    · intro name entry hentry
      obtain ⟨hwithin, horigin⟩ := hrelated.provided name entry hentry
      exact ⟨Located.mono hgrows' hwithin, horigin⟩
    · have hprogram := hrelated.program
      change { whole.program with store := nextWhole } = { before.program with store := nextWhole }
      rw [hprogram]

theorem agree_register {name : String} {type : TypeId} (ht : Located.Within start type) :
    (workTwins shift base locals source inference before).Agree start
      (Resolve.remember (·.register name type (some source.name)))
      (Resolve.remember (·.register name (type.move shift) (some source.name)))
      fun _ _ => True := by
  intro own whole hrelated hgrows
  refine ⟨(), { own with state := own.state.register name type (some source.name) },
    { whole with state := whole.state.register name (type.move shift) (some source.name) },
    rfl, rfl, ?_, .refl _, trivial⟩
  refine ⟨hrelated.inside, hrelated.own_file, hrelated.whole_source, hrelated.expression, ?_, ?_,
    hrelated.program, ?_, hrelated.table⟩
  · intro other
    simp only [State.register, Registry.provider?_register]
    split
    · rfl
    · exact hrelated.registry other
  · intro other entry hentry
    simp only [State.register, Registry.provider?_register] at hentry
    split at hentry
    · cases hentry
      exact ⟨Located.mono hgrows ht, rfl⟩
    · exact hrelated.provided other entry hentry
  · have hstate := hrelated.state
    unfold State.register
    simp only
    rw [hstate]

theorem agree_warnFile (warning : Warning) :
    (workTwins shift base locals source inference before).Agree start
      (Resolve.remember (·.warnFile source.name warning))
      (Resolve.remember (·.warnFile source.name warning)) fun _ _ => True := by
  intro own whole hrelated _
  have hkeeps : ∀ state : State, (state.warnFile source.name warning).registry = state.registry ∧
      state.warnFile source.name warning = { state with
        warnedFiles := (state.warnFile source.name warning).warnedFiles
        diagnostics := (state.warnFile source.name warning).diagnostics } := by
    intro state
    unfold State.warnFile
    simp only
    split <;> exact ⟨rfl, rfl⟩
  refine ⟨(), { own with state := own.state.warnFile source.name warning },
    { whole with state := whole.state.warnFile source.name warning }, rfl, rfl, ?_, .refl _,
    trivial⟩
  refine ⟨hrelated.inside, hrelated.own_file, hrelated.whole_source, hrelated.expression, ?_, ?_,
    hrelated.program, ?_, hrelated.table⟩
  · intro other
    change (whole.state.warnFile source.name warning).registry.provider? other = _
    rw [(hkeeps whole.state).1, (hkeeps own.state).1]
    exact hrelated.registry other
  · intro other entry hentry
    change (own.state.warnFile source.name warning).registry.provider? other = some entry at hentry
    rw [(hkeeps own.state).1] at hentry
    exact hrelated.provided other entry hentry
  · have hstate := hrelated.state
    change whole.state.warnFile source.name warning = _
    rw [(hkeeps whole.state).2]
    rw [hstate]

/-! ### The steps of registering -/

theorem agree_literalMembers (literal : ObjectLiteral) :
    (workTwins shift base locals source inference before).Agree start
      (literalMembers source.name literal) (literalMembers source.name literal)
      Located.Within := by
  refine Twins.Agree.look ?_
  intro own whole hrelated _
  have hembeds := hrelated.inside.embeds
  have hown : own.program.expression? source.name literal.id =
      inference.expression? literal.id := by
    simp only [Program.expression?, hrelated.own_file, Option.bind_some]
  have hobject : (whole.program.expression? source.name literal.id).bind
        whole.program.store.firstType? =
      ((own.program.expression? source.name literal.id).bind own.program.store.firstType?).map
        (·.move shift) := by
    rw [hrelated.expression, hown]
    cases inference.expression? literal.id with
    | none => rfl
    | some value => exact hembeds.firstType? value
  have hmembers : (literal.keys.map fun key =>
        (key, ((whole.program.expression? source.name literal.id).bind
          whole.program.store.firstType?).bind (whole.program.store.memberType? · key))) =
      Located.move shift (literal.keys.map fun key =>
        (key, ((own.program.expression? source.name literal.id).bind
          own.program.store.firstType?).bind (own.program.store.memberType? · key))) := by
    rw [hobject]
    cases (own.program.expression? source.name literal.id).bind
        own.program.store.firstType? with
    | none => simp [Located.move]
    | some object => simp [Located.move, hembeds.memberType?]
  simp only
  rw [hmembers]
  refine .pure _ ?_
  intro next hnext member hmember
  obtain ⟨key, _, rfl⟩ := List.mem_map.1 hmember
  refine ⟨trivial, ?_⟩
  intro type htype
  obtain ⟨object, _, hfirst⟩ := Option.bind_eq_some_iff.1 htype
  obtain ⟨value, _, hhead⟩ := Option.bind_eq_some_iff.1 hfirst
  refine Located.mono hnext (hrelated.inside.sound.held value type ?_)
  exact List.mem_of_head? hhead

theorem agree_providerObject {members : List Member} (hmembers : Located.Within start members) :
    (workTwins shift base locals source inference before).Agree start
      (providerObject source.name members)
      (providerObject source.name (Located.move shift members))
      fun store type => (store.object? type).isSome = true := by
  refine Twins.Agree.bind (agree_resolveOnStore (Store.Matched.newObject none _)) ?_
  intro made object hmade hobject
  refine Twins.Agree.bind (Twins.Agree.forM_move ?_) ?_
  · rintro ⟨name, type⟩ hmember later hlater
    have hobject := hlater.object object hobject
    refine Twins.Agree.bind
      (agree_resolveOnStore (Store.Matched.ensureMember name hobject)) ?_
    intro last member hlast hvalue
    cases type with
    | none => exact .done
    | some type =>
      have htype : Located.Within start type := (hmembers _ hmember).2 type rfl
      have htype := Located.mono ((hmade.trans hlater).trans hlast) htype
      refine Twins.Agree.bind (agree_resolveOnStore (Store.Matched.addType hvalue htype)) ?_
      intro _ _ _ _
      exact .done
  · intro last _ hlast _
    exact .pure _ fun next hnext => hnext.object object (hlast.object object hobject)

theorem agree_registerMembers {members : List Member}
    (hmembers : Located.Within start members) :
    (workTwins shift base locals source inference before).Agree start
      (registerMembers source.name members)
      (registerMembers source.name (Located.move shift members)) fun _ _ => True := by
  refine Twins.Agree.forM_move ?_
  rintro ⟨name, type⟩ hmember later hlater
  cases type with
  | none => exact .done
  | some type => exact agree_register (Located.mono hlater ((hmembers _ hmember).2 type rfl))

/-- An object is registered as a whole. -/
theorem agree_registerObject {name : String} {object : TypeId}
    (hobject : (start.object? object).isSome = true) :
    (workTwins shift base locals source inference before).Agree start
      (Resolve.remember (·.register name object (some source.name)))
      (Resolve.remember (·.register name (object.move shift) (some source.name)))
      fun _ _ => True := by
  obtain ⟨shape, hshape⟩ := Option.isSome_iff_exists.1 hobject
  exact agree_register (Store.lt_of_type? (Store.type?_of_object? _ hshape))

theorem agree_registerAt {members : List Member} (declared : Option (List String))
    (position : Nat) (hmembers : Located.Within start members) :
    (workTwins shift base locals source inference before).Agree start
      (registerAt source.name declared position members)
      (registerAt source.name declared position (Located.move shift members))
      fun _ _ => True := by
  unfold registerAt
  split
  · refine Twins.Agree.bind (agree_providerObject hmembers) ?_
    intro made object _ hobject
    exact agree_registerObject hobject
  · exact agree_warnFile _

theorem agree_registerAll (declared : Option (List String)) (position : Nat)
    (literals : List ObjectLiteral) :
    (workTwins shift base locals source inference before).Agree start
      (registerAll source.name declared position literals)
      (registerAll source.name declared position literals) fun _ _ => True := by
  induction literals generalizing position start with
  | nil => exact .done
  | cons literal rest ih =>
    unfold registerAll
    refine Twins.Agree.bind (agree_literalMembers literal) ?_
    intro read members _ hmembers
    split
    · refine Twins.Agree.bind (agree_registerMembers hmembers) ?_
      intro _ _ _ _
      exact ih position
    · refine Twins.Agree.bind (agree_registerAt declared position hmembers) ?_
      intro _ _ _ _
      exact ih (position + 1)

theorem agree_leadingDoc (offset : Nat) :
    (workTwins shift base locals source inference before).Agree start
      (leadingDoc source.name offset) (leadingDoc source.name offset) Located.Within := by
  refine Twins.Agree.look ?_
  intro own whole hrelated _
  have hcomments : whole.program.commentsBefore source.name offset =
      own.program.commentsBefore source.name offset := by
    unfold Program.commentsBefore
    rw [hrelated.whole_source, Program.file?, hrelated.own_file]
    rfl
  rw [hcomments]
  have hmove : ∀ doc : Option String, Located.move shift doc = doc := by
    intro doc
    cases doc <;> rfl
  have hpure : ∀ doc : Option String,
      (workTwins shift base locals source inference before).Agree own.program.store
        (pure doc) (pure (Located.move shift doc)) Located.Within :=
    fun doc => .pure doc fun _ _ _ _ => trivial
  have hagree := hpure
    ((own.program.commentsBefore source.name offset).getLast?.bind Docs.describe)
  rw [hmove] at hagree
  exact hagree

theorem agree_registerFrozen (declared : Option (List String)) (freeze : FreezeCall) :
    (workTwins shift base locals source inference before).Agree start
      (registerFrozen source.name declared freeze) (registerFrozen source.name declared freeze)
      fun _ _ => True := by
  unfold registerFrozen
  split
  · exact agree_warnFile _
  · rename_i name
    refine Twins.Agree.bind (agree_literalMembers freeze.literal) ?_
    intro read members _ hmembers
    refine Twins.Agree.bind (agree_providerObject hmembers) ?_
    intro made object hmade hobject
    refine Twins.Agree.bind (agree_leadingDoc freeze.start) ?_
    intro looked doc hlooked _
    have hobject := hlooked.object object hobject
    cases doc with
    | none => exact agree_registerObject hobject
    | some doc =>
      refine Twins.Agree.bind (agree_resolveOnStore (Store.Matched.setDoc doc hobject)) ?_
      intro last _ hlast _
      exact agree_registerObject (hlast.object object hobject)
  · exact agree_warnFile _

theorem agree_synthesize (config : Config) :
    (workTwins shift base locals source inference before).Agree start
      (synthesize config source.name) (synthesize config source.name) fun _ _ => True := by
  refine Twins.Agree.look ?_
  intro own whole hrelated _
  have hown : own.program.file? source.name = some source := by
    rw [Program.file?, hrelated.own_file]
    rfl
  simp only [hown, hrelated.whole_source]
  refine Twins.Agree.bind (agree_registerAll _ 0 _) ?_
  intro _ _ _ _
  refine Twins.Agree.forM ?_
  intro freeze _ later _
  exact agree_registerFrozen _ freeze

/-! ### Providing in a session -/

variable [Parser]

/-- What registering a file's providers makes of a session: `before` is the work once the file is
    inferred into a store that held `base` until then. -/
structure Provides (config : Config) (file text : String) (shift : Shift) (base : Store)
    (before after : Work) : Prop where
  inside : Store.Inside shift base ((provision config file text).inference.locals file)
    (provision config file text).store after.program.store
  registry : ∀ name, after.state.registry.provider? name =
    (((provision config file text).registry.provider? name).map (·.move shift)).or
      (before.state.registry.provider? name)
  provided : ∀ name entry, (provision config file text).registry.provider? name = some entry →
    Located.Within (provision config file text).store entry.type ∧ entry.origin = some file
  program : after.program = { before.program with store := after.program.store }
  state : after.state = { before.state with
    registry := after.state.registry
    warnedFiles := after.state.warnedFiles
    diagnostics := after.state.diagnostics }
  table : after.table = before.table

theorem provision_inference {file text : String} {inference : FileInference} {own : Store}
    (config : Config)
    (hown : inferFile file (SourceFile.ofText file text).root .initial = (.ok inference, own)) :
    (provision config file text).inference = inference := by
  unfold provision
  simp only [hown]

theorem provision_eq {config : Config} {file text : String} {inference : FileInference}
    {own : Store} {alone : Work}
    (hown : inferFile file (SourceFile.ofText file text).root .initial = (.ok inference, own))
    (halone : (synthesize config file).runOn
      (.alone (SourceFile.ofText file text) inference own) = (.ok (), alone)) :
    provision config file text = ⟨inference, alone.program.store, alone.state.registry⟩ := by
  unfold provision
  simp only [hown, halone]

/-- Inferring a file into a sound store finds what the file on its own has, and registering its
    providers in a session comes to what it comes to for the file on its own. -/
theorem inferFile_provision {base : Store} {locals : Variables} (h : base.Sound locals)
    (config : Config) (file text : String) :
    ∃ whole, inferFile file (SourceFile.ofText file text).root base =
        (.ok ((provision config file text).inference.move h.frontier), whole) ∧
      ∀ before : Work, before.program.store = whole →
        before.program.file? file = some (SourceFile.ofText file text) →
        (∀ id, before.program.expression? file id =
          ((provision config file text).inference.expression? id).map (·.move h.frontier)) →
        ∃ after, (synthesize config file).runOn before = (.ok (), after) ∧
          Provides config file text h.frontier base before after := by
  obtain ⟨inference, own, whole, hown, hwhole, hhoused⟩ :=
    inferFile_sound h file (SourceFile.ofText file text).root
  rw [provision_inference config hown]
  refine ⟨whole, hwhole, ?_⟩
  intro before hstore hsource hexpression
  let source := SourceFile.ofText file text
  have hbegin : Work.Twin h.frontier base (inference.locals file) source inference before
      (.alone source inference own) before := by
    refine ⟨?_, ?_, hsource, hexpression, ?_, ?_, rfl, rfl, rfl⟩
    · rw [hstore]
      exact hhoused.inside
    · simp [Work.alone, Keyed.get?]
    · intro name
      rfl
    · intro name entry hentry
      cases hentry
  obtain ⟨_, alone, after, halone, hafter, htwin, -, -⟩ :=
    agree_synthesize config _ _ hbegin
      (Store.Grows.refl (Work.alone source inference own).program.store)
  have heq := provision_eq hown halone
  refine ⟨after, hafter, ?_⟩
  constructor
  · rw [heq]
    exact htwin.inside
  · rw [heq]
    exact htwin.registry
  · rw [heq]
    exact htwin.provided
  · exact htwin.program
  · exact htwin.state
  · exact htwin.table

end Capabilities.Resolver
