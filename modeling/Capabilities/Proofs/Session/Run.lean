import Capabilities.Proofs.Resolver.Pass
import Capabilities.Proofs.Session.Hosting

/-!
# Runs of a session

A session adds files, gives files a new text and analyzes, in any order and any number of times.
What loading a file, updating a file and a pass over all consumers keep of an enabled resolver's
work is kept by all of its runs (`Invariant`, `Engine.Sane.run`). A resolver that is enabled at the
end of a run was enabled all the time.
-/

namespace Capabilities.Resolver

open Host Session

variable {mail : Mail} {resolver later last : ResolverPlugin}

/-! ### Being enabled -/

/-- Nothing is known of the list of plugins as long as it is waited for. -/
def ResolverPlugin.Waits (resolver : ResolverPlugin) : Prop :=
  ∀ reply, resolver.plugins = some reply → reply.ticket.isSome = true →
    reply.state = .notYetAvailable

/-- The settings stay, and at most the list of plugins has arrived. -/
structure ResolverPlugin.Becomes (mail : Mail) (resolver later : ResolverPlugin) : Prop where
  config : later.config = resolver.config
  plugins : later.plugins = resolver.plugins ∨ later.plugins = (resolver.poll mail).plugins

namespace ResolverPlugin

theorem Becomes.refl (mail : Mail) (resolver : ResolverPlugin) : resolver.Becomes mail resolver :=
  ⟨rfl, Or.inl rfl⟩

theorem Becomes.polled (h : resolver.Becomes mail later) :
    (later.poll mail).plugins = (resolver.poll mail).plugins := by
  have hpoll : ∀ first second : ResolverPlugin, first.plugins = second.plugins →
      (first.poll mail).plugins = (second.poll mail).plugins := by
    intro first second heq
    unfold poll
    simp only [heq]
  rcases h.plugins with hplugins | hplugins
  · exact hpoll _ _ hplugins
  · rw [hpoll later (resolver.poll mail) hplugins, Engine.poll_poll]

theorem Becomes.trans (h : resolver.Becomes mail later) (h' : later.Becomes mail last) :
    resolver.Becomes mail last := by
  refine ⟨h'.config.trans h.config, ?_⟩
  rcases h'.plugins with hplugins | hplugins
  · rw [hplugins]
    exact h.plugins
  · rw [hplugins, h.polled]
    exact Or.inr rfl

theorem isEnabled_of_eq {first second : ResolverPlugin} (hconfig : second.config = first.config)
    (hplugins : second.plugins = first.plugins) : second.isEnabled = first.isEnabled := by
  unfold isEnabled
  rw [hconfig, hplugins]

theorem Becomes.isEnabled_polled (h : resolver.Becomes mail later) :
    (later.poll mail).isEnabled = (resolver.poll mail).isEnabled :=
  isEnabled_of_eq h.config h.polled

/-- A look at the mail does not enable a resolver. -/
theorem Waits.isEnabled (hwaits : resolver.Waits) (h : (resolver.poll mail).isEnabled = true) :
    resolver.isEnabled = true := by
  cases hplugins : resolver.plugins with
  | none =>
    unfold ResolverPlugin.isEnabled
    rw [hplugins]
    rfl
  | some reply =>
    cases hticket : reply.ticket with
    | none =>
      have hsame : (resolver.poll mail).plugins = resolver.plugins := by
        unfold poll
        rw [hplugins]
        simp [PendingReply.poll, hticket]
      have heq : (resolver.poll mail).isEnabled = resolver.isEnabled := isEnabled_of_eq rfl hsame
      rwa [heq] at h
    | some ticket =>
      have hstate := hwaits reply hplugins (by rw [hticket]; rfl)
      unfold ResolverPlugin.isEnabled
      rw [hplugins, Option.bind_some, hstate]
      rfl

theorem Waits.poll (hwaits : resolver.Waits) (mail : Mail) : (resolver.poll mail).Waits := by
  intro polled hpolled hsome
  obtain ⟨reply, hplugins, rfl⟩ := Option.map_eq_some_iff.1 hpolled
  rcases poll_reply_cases mail reply with hsame | hnone
  · rw [hsame] at hsome ⊢
    exact hwaits reply hplugins hsome
  · rw [hnone] at hsome
    cases hsome

theorem Becomes.waits (h : resolver.Becomes mail later) (hwaits : resolver.Waits) :
    later.Waits := by
  have hpolled := hwaits.poll mail
  unfold Waits
  rcases h.plugins with hplugins | hplugins
  · rw [hplugins]
    exact hwaits
  · rw [hplugins]
    exact hpolled

theorem Becomes.isEnabled (h : resolver.Becomes mail later) (hwaits : resolver.Waits)
    (henabled : later.isEnabled = true) : resolver.isEnabled = true := by
  rcases h.plugins with hplugins | hplugins
  · have heq : later.isEnabled = resolver.isEnabled := isEnabled_of_eq h.config hplugins
    rwa [heq] at henabled
  · have heq : later.isEnabled = (resolver.poll mail).isEnabled :=
      isEnabled_of_eq h.config hplugins
    exact hwaits.isEnabled (heq.symm.trans henabled)

/-- A resolver that has seen no file yet. -/
structure Fresh (config : Config) (resolver : ResolverPlugin) : Prop where
  settings : resolver.config = config
  state : resolver.state = .initial
  waits : resolver.Waits

theorem eq_of_new {config : Config} (h : ResolverPlugin.new config = .ok resolver) :
    resolver = ⟨config, .initial, .notRequested, none⟩ := by
  unfold ResolverPlugin.new at h
  cases hvalid : config.validate with
  | error error => simp [hvalid, bind, Except.bind] at h
  | ok _ =>
    simp only [hvalid, bind, Except.bind, pure, Except.pure, Except.ok.injEq] at h
    exact h.symm

theorem fresh_new {config : Config} (h : ResolverPlugin.new config = .ok resolver) :
    resolver.Fresh config := by
  rw [eq_of_new h]
  exact ⟨rfl, rfl, fun _ hreply => by cases hreply⟩

theorem Fresh.withTable {config : Config} (h : resolver.Fresh config) (table : PathTable) :
    (resolver.withTable table).Fresh config :=
  ⟨h.settings, h.state, h.waits⟩

theorem Fresh.connect {config : Config} (h : resolver.Fresh config) (exchange : Exchange) :
    (resolver.connect exchange).1.Fresh config := by
  have hawaiting : ∀ (asked : ResolverPlugin) (ticket : Ticket), asked.Fresh config →
      ({ asked with plugins := some (.awaiting ticket) } : ResolverPlugin).Fresh config := by
    intro asked ticket hasked
    refine ⟨hasked.settings, hasked.state, ?_⟩
    intro reply hreply _
    cases hreply
    rfl
  unfold ResolverPlugin.connect Exchange.requestPaths Exchange.requestPlugins
  dsimp only
  cases (exchange.request .paths).1 with
  | error error =>
    cases ((exchange.request .paths).2.request .plugins).1 with
    | error error => exact h
    | ok ticket => exact hawaiting resolver ticket h
  | ok asked =>
    have htable := h.withTable (.requested (.awaiting asked))
    cases ((exchange.request .paths).2.request .plugins).1 with
    | error error => exact htable
    | ok ticket => exact hawaiting _ ticket htable

end ResolverPlugin

variable [Script.Parser]

/-- What loading a file, updating a file and a pass over all consumers keep of the work of an
    enabled resolver, together with the texts loaded so far. -/
structure Maintained (config : Config) (kept : List (String × String) → Work → Prop) : Prop where
  requeue : ∀ history work queue failed, kept history work →
    kept history { work with program := { work.program with queue := queue, failed := failed } }
  load : ∀ history path text origin shift asked before after, Ready config before →
    before.program.isLoaded path = false →
    Work.Loads config path text origin shift asked before after → kept history before →
    kept (history ++ [(path, text)]) after
  update : ∀ history work path text, Ready config work → kept history work →
    kept history { work with program := work.program.updateFile path text }
  pass : ∀ history work mail, Ready config work → kept history work →
    kept history (bindProgram config mail work)

/-- What is kept from the start of a session on. -/
structure Invariant (config : Config) (kept : List (String × String) → Work → Prop) : Prop
    extends Maintained config kept where
  start : ∀ table, kept [] ⟨.initial, .initial, table⟩

theorem Ready.start (config : Config) (table : PathTable) :
    Ready config ⟨.initial, .initial, table⟩ := by
  refine ⟨?_, ?_, ?_, ?_, ?_, ?_⟩
  · exact Capabilities.Types.Store.Sound.initial
  · intro file source hsource
    cases hsource
  · intro name type htype
    cases htype
  · intro file object hobject
    cases hobject
  · intro first second object hfirst
    cases hfirst
  · intro file object name hobject
    cases hobject

theorem Ready.requeue {config : Config} {work : Work} (h : Ready config work)
    (queue : List PendingFile) (failed : List String) :
    Ready config { work with program := { work.program with queue := queue, failed := failed } } :=
  by
    refine ⟨h.sound, ?_, h.registered, h.object, h.apart, h.foreign⟩
    intro file source hsource
    obtain ⟨text, htext, hattached⟩ := h.loaded file source hsource
    exact ⟨text, htext, hattached.leaves ⟨rfl, fun _ => id, rfl, rfl, fun _ _ => rfl,
      fun _ _ _ _ => ⟨rfl, rfl⟩⟩⟩

theorem Ready.updateFile {config : Config} {work : Work} (h : Ready config work)
    (path text : String) :
    Ready config { work with program := work.program.updateFile path text } := by
  have hother : ∀ file, file ≠ path →
      (work.program.updateFile path text).files.get? file = work.program.files.get? file :=
    fun file hfile => Keyed.get?_erase_of_ne _ hfile
  have hself : (work.program.updateFile path text).files.get? path = none := by
    rw [Program.updateFile, Keyed.get?_erase, if_pos rfl]
  have hlocal : ∀ file scope name, file ≠ path →
      (work.program.updateFile path text).localValue? file scope name =
        work.program.localValue? file scope name := by
    intro file scope name hfile
    unfold Program.localValue?
    rw [hother file hfile]
  refine ⟨h.sound.forget ?_, ?_, h.registered, h.object, h.apart, h.foreign⟩
  · intro of value hof
    by_cases hfile : of.file = path
    · simp [Program.locals, Program.localValue?, hfile, hself] at hof
    · rw [← hof]
      exact (hlocal of.file of.scope of.name hfile).symm
  · intro file source hsource
    by_cases hfile : file = path
    · simp [Program.file?, hfile, hself] at hsource
    have hfound : work.program.file? file = some source := by
      rw [← hsource]
      unfold Program.file?
      rw [hother file hfile]
    obtain ⟨found, hof, hattached⟩ := h.loaded file source hfound
    refine ⟨found, hof, hattached.leaves ⟨hother file hfile, fun _ => id, rfl, rfl, ?_, ?_⟩⟩
    · intro place hbelongs
      cases place with
      | ofVariable of =>
        have hof : of.file = file := hbelongs
        exact hlocal of.file of.scope of.name (by rw [hof]; exact hfile)
      | member owner name => rfl
      | result function => rfl
      | property owner name => rfl
    · exact fun _ _ _ _ => ⟨rfl, rfl⟩

/-- Nothing is left to do for any loaded file. -/
structure Complete (config : Config) (mail : Mail) (work : Work) : Prop where
  origin : work.state.currentOrigin = none
  settled : ∀ file ∈ work.program.fileNames, ∃ text,
    work.program.file? file = some (.ofText file text) ∧ Settled config mail work file text

theorem Complete.of_file? {config : Config} {work : Work} {file text : String}
    (h : Complete config mail work) (hfile : work.program.file? file = some (.ofText file text)) :
    Settled config mail work file text := by
  have hmem : file ∈ work.program.fileNames := by
    obtain ⟨loaded, hloaded, _⟩ := Option.map_eq_some_iff.1 hfile
    exact (Keyed.mem_keys_iff _ _).2 (by rw [hloaded]; rfl)
  obtain ⟨other, hother, hsettled⟩ := h.settled file hmem
  rw [hfile] at hother
  cases hother
  exact hsettled

theorem Ready.complete_bindProgram {config : Config} {work : Work} (h : Ready config work)
    (mail : Mail) : Complete config mail (Resolver.bindProgram config mail work) := by
  obtain ⟨hready, hadvances, _, horigin, hsettled⟩ := h.bindProgram mail
  refine ⟨horigin, ?_⟩
  intro file hfile
  have hsame : (Resolver.bindProgram config mail work).program.files = work.program.files :=
    hadvances.files
  obtain ⟨loaded, hloaded⟩ := Option.isSome_iff_exists.1 ((Keyed.mem_keys_iff _ _).1 hfile)
  rw [hsame] at hloaded
  have hsource : work.program.file? file = some loaded.source := by
    unfold Program.file?
    rw [hloaded]
    rfl
  obtain ⟨text, htext, _⟩ := h.loaded file _ hsource
  refine ⟨text, ?_, (hsettled file text (htext ▸ hsource)).1⟩
  unfold Program.file?
  rw [hsame, ← htext]
  exact hsource

theorem Complete.queueing {config : Config} {work : Work} {more : List PendingFile}
    (h : Complete config mail work) (hmay : work.program.MayQueue more) :
    Complete config mail { work with program := work.program.queueing more } := by
  have hadvances : work.Advances mail (fun _ => True)
      { work with program := work.program.queueing more } :=
    ⟨⟨more, fun _ _ => trivial, rfl⟩, rfl, fun _ => id, fun _ => id, id, Or.inl rfl, hmay⟩
  refine ⟨h.origin, ?_⟩
  intro file hfile
  obtain ⟨text, htext, hsettled⟩ := h.settled file hfile
  refine ⟨text, htext, hsettled.keeps ⟨⟨rfl, fun _ => id, rfl, rfl, fun _ _ => rfl,
    fun _ _ _ _ => ⟨rfl, rfl⟩⟩, rfl, rfl, fun _ => id, ?_⟩⟩
  exact fun config name consumer hhandled => hhandled.advances hadvances

end Capabilities.Resolver

namespace Capabilities.Session

open Host Script Resolver Capabilities.Types

/-! ### Steps -/

/-- What is done to a session. The disk and the letters of the host may be others each time. -/
inductive Step where
  | addFile (path : String) (text origin : Option String)
  | updateFile (path text : String)
  | analyze (read : String → Option String) (mail : Mail)

def Program.texts (read : String → Option String) (program : Program) : List (String × String) :=
  program.queue.filterMap fun pending =>
    (pending.text.or (read pending.path)).map fun text => (pending.path, text)

namespace Engine

section

variable {π : Type} [Plugin π]

variable [Parser]

def step (engine : Engine π) : Step → Engine π
  | .addFile path text origin =>
    { engine with program := (engine.program.addFile path text origin).2 }
  | .updateFile path text => { engine with program := engine.program.updateFile path text }
  | .analyze read mail => (engine.analyze read mail).2

def run (engine : Engine π) (steps : List Step) : Engine π := steps.foldl step engine

/-- The texts that are loaded in the course of some steps if no plugin asks for files while files
    are loaded, by path. -/
def history (engine : Engine π) : List Step → List (String × String)
  | [] => []
  | .analyze read mail :: rest =>
    engine.program.texts read ++ (engine.step (.analyze read mail)).history rest
  | first :: rest => (engine.step first).history rest

def loadsOf (engine : Engine π) : Step → List String
  | .analyze read mail => (engine.analyze read mail).1.loaded
  | _ => []

/-- The paths that are loaded in the course of some steps, in order. -/
def loads (engine : Engine π) : List Step → List String
  | [] => []
  | first :: rest => engine.loadsOf first ++ (engine.step first).loads rest

def popping (engine : Engine π) (queue : List PendingFile) : Engine π :=
  { engine with program := { engine.program with queue := queue } }

/-- The engine once the first file of its queue was loaded or has failed. -/
def loadNext (read : String → Option String) (mail : Mail) (pending : PendingFile)
    (queue : List PendingFile) (engine : Engine π) : Engine π :=
  let popped := { engine with program := { engine.program with queue := queue } }
  let loaded := popped.load read mail pending
  let known := loaded.2.program.failed.filter (· != pending.path)
  { loaded.2 with program := { loaded.2.program with
    failed := if loaded.1 then known else known ++ [pending.path] } }

theorem loadNext_eq {read : String → Option String} {mail : Mail} {pending : PendingFile}
    {queue : List PendingFile} {engine next : Engine π} {succeeded : Bool}
    (h : ({ engine with program := { engine.program with queue := queue } } : Engine π).load read
      mail pending = (succeeded, next)) :
    engine.loadNext read mail pending queue = { next with program := { next.program with
      failed := if succeeded then next.program.failed.filter (· != pending.path)
        else next.program.failed.filter (· != pending.path) ++ [pending.path] } } := by
  unfold loadNext
  dsimp only
  rw [h]

/-- Draining goes on after the first file, which is listed by whether it was loaded. -/
theorem drain_succ {read : String → Option String} {mail : Mail} {pending : PendingFile}
    {queue : List PendingFile} {engine : Engine π} (steps : Nat)
    (h : engine.program.queue = pending :: queue) :
    engine.drain read mail (steps + 1) =
      let rest := (engine.loadNext read mail pending queue).drain read mail steps
      if ((engine.popping queue).load read mail pending).1 then
        (pending.path :: rest.1, rest.2.1, rest.2.2)
      else (rest.1, pending.path :: rest.2.1, rest.2.2) := by
  conv =>
    lhs
    unfold drain
  simp only [h]
  rfl

theorem drain_cons {read : String → Option String} {mail : Mail} {pending : PendingFile}
    {queue : List PendingFile} {engine : Engine π} (steps : Nat)
    (h : engine.program.queue = pending :: queue) :
    (engine.drain read mail (steps + 1)).2.2 =
      ((engine.loadNext read mail pending queue).drain read mail steps).2.2 := by
  rw [drain_succ steps h]
  dsimp only
  split <;> rfl

theorem drain_of_empty {read : String → Option String} {mail : Mail} {engine : Engine π}
    (h : engine.program.queue = []) (steps : Nat) :
    engine.drain read mail steps = ([], [], engine) := by
  cases steps with
  | zero => rfl
  | succ steps =>
    unfold drain
    simp only [h]

theorem drain_nil {read : String → Option String} {mail : Mail} {engine : Engine π} (steps : Nat)
    (h : engine.program.queue = []) : (engine.drain read mail steps).2.2 = engine := by
  rw [drain_of_empty h]

theorem run_append (engine : Engine π) (first second : List Step) :
    engine.run (first ++ second) = (engine.run first).run second :=
  List.foldl_append ..

theorem history_cons (engine : Engine π) (first : Step) (rest : List Step) :
    engine.history (first :: rest) =
      engine.history [first] ++ (engine.step first).history rest := by
  cases first with
  | addFile path text origin => simp [history]
  | updateFile path text => simp [history]
  | analyze read mail => simp [history]

theorem history_append (engine : Engine π) (first second : List Step) :
    engine.history (first ++ second) =
      engine.history first ++ (engine.run first).history second := by
  induction first generalizing engine with
  | nil => rfl
  | cons step rest ih =>
    rw [List.cons_append, history_cons, ih, history_cons engine step rest, List.append_assoc]
    rfl

end

variable {config : Config} {mail : Mail} {read : String → Option String} {resolver : ResolverPlugin}
  {others : Nat} {engine : Engine Installed}

/-! ### Whatever becomes of the resolver -/

theorem Hosts.withProgram (h : engine.Hosts resolver others) (program : Program) :
    ({ engine with program := program } : Engine Installed).Hosts resolver others := h

theorem becomes_beforeLoad (path : String) (program : Program) :
    resolver.Becomes mail (ResolverPlugin.beforeLoad mail path resolver program).1 := by
  unfold ResolverPlugin.beforeLoad
  dsimp only
  split
  · exact ⟨rfl, Or.inr rfl⟩
  · exact ⟨rfl, Or.inr rfl⟩

theorem becomes_afterLoad (path : String) (program : Program) :
    resolver.Becomes mail (ResolverPlugin.afterLoad mail path resolver program).1 := by
  unfold ResolverPlugin.afterLoad
  dsimp only
  split
  · exact ⟨rfl, Or.inr rfl⟩
  · exact ⟨rfl, Or.inr rfl⟩

theorem becomes_postInfer (program : Program) :
    resolver.Becomes mail (ResolverPlugin.postInfer mail resolver program).1 ∧
      (ResolverPlugin.postInfer mail resolver program).1.plugins =
        (resolver.poll mail).plugins := by
  unfold ResolverPlugin.postInfer
  dsimp only
  split
  · exact ⟨⟨rfl, Or.inr rfl⟩, rfl⟩
  · exact ⟨⟨rfl, Or.inr rfl⟩, rfl⟩

theorem Hosts.load_becomes [Parser] (h : engine.Hosts resolver others) (pending : PendingFile) :
    ∃ loaded, (engine.load read mail pending).2.Hosts loaded others ∧
      resolver.Becomes mail loaded := by
  unfold Engine.load
  split
  · exact ⟨resolver, h, .refl mail resolver⟩
  rename_i text _
  let opened : Engine Installed := { engine with program := { engine.program with
    files := engine.program.files.put pending.path
      ⟨SourceFile.ofText pending.path text, .empty, pending.origin⟩ } }
  obtain ⟨first, _, _, _, _, hhosts, _⟩ :=
    (show opened.Hosts resolver others from h).dispatch (acts_beforeLoad mail pending.path)
  have hbefore := @becomes_beforeLoad mail resolver pending.path (opened.program.queueing first)
  dsimp only
  split
  · exact ⟨_, hhosts, hbefore⟩
  · obtain ⟨_, _, _, _, _, hhosts', _⟩ := Hosts.dispatch (Hosts.withProgram hhosts _)
      (acts_afterLoad mail pending.path)
    exact ⟨_, hhosts', hbefore.trans (becomes_afterLoad pending.path _)⟩

theorem Hosts.drain_becomes [Parser] (h : engine.Hosts resolver others) (steps : Nat) :
    ∃ drained, (engine.drain read mail steps).2.2.Hosts drained others ∧
      resolver.Becomes mail drained := by
  induction steps generalizing engine resolver with
  | zero => exact ⟨resolver, h, .refl mail resolver⟩
  | succ steps ih =>
    cases hqueue : engine.program.queue with
    | nil =>
      rw [drain_nil _ hqueue]
      exact ⟨resolver, h, .refl mail resolver⟩
    | cons pending queue =>
      rw [drain_cons _ hqueue]
      obtain ⟨loaded, hloaded, hbecomes⟩ :=
        (h.withProgram { engine.program with queue := queue }).load_becomes pending
      obtain ⟨drained, hdrained, hbecomes'⟩ := ih (hloaded.withProgram _)
      exact ⟨drained, hdrained, hbecomes.trans hbecomes'⟩

theorem Hosts.analyze_becomes [Parser] (h : engine.Hosts resolver others) :
    ∃ analyzed, (engine.analyze read mail).2.Hosts analyzed others ∧
      resolver.Becomes mail analyzed ∧ analyzed.plugins = (resolver.poll mail).plugins := by
  obtain ⟨drained, hdrained, hbecomes⟩ := @drain_becomes mail read _ _ _ _ h engine.pending
  obtain ⟨first, _, _, _, _, hhosts, _⟩ := hdrained.dispatch (acts_postInfer mail)
  obtain ⟨hlast, hplugins⟩ := @becomes_postInfer mail drained
    ((engine.drain read mail engine.pending).2.2.program.queueing first)
  exact ⟨_, hhosts, hbecomes.trans hlast, hplugins.trans hbecomes.polled⟩

/-! ### What is kept while the resolver is enabled -/

/-- A file is loaded, or queued with a text. -/
def Present (program : Program) (path : String) : Prop :=
  program.isLoaded path = true ∨
    ∃ pending ∈ program.queue, pending.path = path ∧ pending.text.isSome = true

theorem Present.queueing {program : Program} {path : String} (h : Present program path)
    (more : List PendingFile) : Present (program.queueing more) path := by
  rcases h with hloaded | ⟨pending, hpending, hsame⟩
  · exact Or.inl hloaded
  · exact Or.inr ⟨pending, List.mem_append_left _ hpending, hsame⟩

theorem Present.updateFile {program : Program} {other : String} (h : Present program other)
    (path text : String) : Present (program.updateFile path text) other := by
  by_cases hsame : other = path
  · exact Or.inr ⟨⟨path, some text, _⟩, List.mem_append_right _ (List.mem_singleton.2 rfl),
      hsame.symm, rfl⟩
  rcases h with hloaded | ⟨pending, hpending, hpath, htext⟩
  · left
    change (Keyed.get? (program.files.erase path) other).isSome = true
    rw [Keyed.get?_erase_of_ne _ hsame]
    exact hloaded
  · refine Or.inr ⟨pending, List.mem_append_left _ (List.mem_filter.2 ⟨hpending, ?_⟩), hpath,
      htext⟩
    rw [hpath]
    exact bne_iff_ne.2 hsame

/-- A file that leaves the queue with a text is loaded then. -/
theorem Present.pop {before after : Program} {path : String} {pending : PendingFile}
    {queue : List PendingFile} (h : Present before path) (hqueue : before.queue = pending :: queue)
    (hafter : queue ⊆ after.queue)
    (hloaded : ∀ other, before.isLoaded other = true → after.isLoaded other = true)
    (hpending : pending.text.isSome = true → after.isLoaded pending.path = true) :
    Present after path := by
  rcases h with hbefore | ⟨other, hother, hpath, htext⟩
  · exact Or.inl (hloaded path hbefore)
  rw [hqueue] at hother
  rcases List.mem_cons.1 hother with rfl | hother
  · exact Or.inl (hpath ▸ hpending htext)
  · exact Or.inr ⟨other, hafter hother, hpath, htext⟩

variable [Parser]

/-- What a session keeps as long as its resolver is enabled. -/
structure Works (config : Config) (kept : List (String × String) → Work → Prop) (others : Nat)
    (texts : List (String × String)) (engine : Engine Installed) (resolver : ResolverPlugin) :
    Prop where
  hosts : engine.Hosts resolver others
  settings : resolver.config = config
  orderly : engine.program.Orderly
  ready : Ready config (resolver.work engine.program)
  holds : kept texts (resolver.work engine.program)
  present : ∀ path ∈ texts.map Prod.fst, Present engine.program path

variable {kept : List (String × String) → Work → Prop} {texts : List (String × String)}

/-- A file that cannot be read is passed over, whether the resolver is enabled or not. -/
theorem Works.passOver {pending : PendingFile} {queue : List PendingFile}
    (h : Works config kept others texts engine resolver) (hkept : Maintained config kept)
    (hqueue : engine.program.queue = pending :: queue) (read : String → Option String) (mail : Mail)
    (htext : pending.text.or (read pending.path) = none) :
    engine.loadNext read mail pending queue = { engine with program := { engine.program with
        queue := queue
        failed := engine.program.failed.filter (· != pending.path) ++ [pending.path] } } ∧
      Works config kept others texts (engine.loadNext read mail pending queue) resolver := by
  obtain ⟨_, _, hpopped⟩ := h.orderly.pop hqueue
  let popped : Engine Installed := { engine with program := { engine.program with queue := queue } }
  have hload : popped.load read mail pending = (false, popped) := load_unreadable htext
  rw [loadNext_eq hload]
  refine ⟨rfl, h.hosts, h.settings, hpopped.of_same rfl rfl, h.ready.requeue queue _,
    hkept.requeue texts _ queue _ h.holds, ?_⟩
  intro path hpath
  refine (h.present path hpath).pop hqueue (fun _ => id) (fun _ => id) fun hsome => ?_
  rw [(Option.or_eq_none_iff.1 htext).1] at hsome
  cases hsome

/-- Loading the first file of the queue keeps it. -/
theorem Works.loadNext {pending : PendingFile} {queue : List PendingFile}
    (h : Works config kept others texts engine resolver) (hkept : Maintained config kept)
    (read : String → Option String) (henabled : (resolver.poll mail).isEnabled = true)
    (hqueue : engine.program.queue = pending :: queue) :
    ∃ loaded more, Works config kept others (texts ++ more)
        (engine.loadNext read mail pending queue) loaded ∧
      resolver.Becomes mail loaded ∧ loaded.table = resolver.table ∧
      more = (((pending.text.or (read pending.path)).map fun text =>
        (pending.path, text)).toList) ∧
      ((engine.popping queue).load read mail pending).1 =
        (pending.text.or (read pending.path)).isSome ∧
      (others = 0 → (engine.loadNext read mail pending queue).program.queue = queue) ∧
      ∀ path ∈ (engine.loadNext read mail pending queue).program.failed,
        path ∈ engine.program.failed ∨ path = pending.path ∧
          pending.text.or (read pending.path) = none := by
  obtain ⟨hunqueued, hunloaded, hpopped⟩ := h.orderly.pop hqueue
  let popped : Engine Installed := { engine with program := { engine.program with queue := queue } }
  have hready : Ready config (resolver.work popped.program) :=
    h.ready.requeue queue engine.program.failed
  have hholds : kept texts (resolver.work popped.program) :=
    hkept.requeue texts _ queue engine.program.failed h.holds
  have hknown : ∀ path ∈ engine.program.failed.filter (· != pending.path),
      path ∈ engine.program.failed := fun path hpath => (List.mem_filter.1 hpath).1
  cases htext : pending.text.or (read pending.path) with
  | none =>
    obtain ⟨hnext, hworks⟩ := h.passOver hkept hqueue read mail htext
    have hunread : (popped.load read mail pending).1 = false :=
      congrArg Prod.fst (load_unreadable htext)
    refine ⟨resolver, [], ?_, .refl mail resolver, rfl, rfl, hunread, fun _ => by rw [hnext], ?_⟩
    · rw [List.append_nil]
      exact hworks
    · intro path hpath
      rw [hnext] at hpath
      rcases List.mem_append.1 hpath with hpath | hpath
      · exact Or.inl (hknown path hpath)
      · exact Or.inr ⟨List.mem_singleton.1 hpath, rfl⟩
  | some text =>
    obtain rfl := h.settings
    obtain ⟨next, loaded, asked, hload, hhosts, hsettings, hplugins, hasked, hloads⟩ :=
      (h.hosts.withProgram popped.program).load henabled hready htext
    have hleft : next.program.queue = queue ++ asked := congrArg Program.queue hloads.program
    have hnow : ∀ path, next.program.isLoaded path =
        (path == pending.path || engine.program.isLoaded path) := hloads.isLoaded
    have hfailed : next.program.failed = engine.program.failed := by
      have hsame := congrArg Program.failed hloads.program
      exact hsame
    rw [loadNext_eq hload]
    refine ⟨loaded, [(pending.path, text)], ⟨hhosts, hsettings, ?_, ?_, ?_, ?_⟩,
      ⟨hsettings, Or.inr hplugins⟩, hloads.table, rfl, congrArg Prod.fst hload, ?_, ?_⟩
    · exact (hloads.orderly hunqueued hpopped).of_same rfl rfl
    · exact (hloads.ready hready).requeue next.program.queue _
    · exact hkept.requeue _ _ next.program.queue _
        (hkept.load texts _ _ _ _ _ _ _ hready hunloaded hloads hholds)
    · intro path hpath
      by_cases hsame : path = pending.path
      · exact Or.inl ((hnow path).trans (by simp [hsame]))
      rw [List.map_append, List.mem_append] at hpath
      refine (h.present path (hpath.resolve_right (by simpa using hsame))).pop hqueue ?_
        (fun other hother => (hnow other).trans (by simp [hother]))
        fun _ => (hnow pending.path).trans (by simp)
      change queue ⊆ next.program.queue
      rw [hleft]
      exact List.subset_append_left queue asked
    · intro hzero
      change next.program.queue = queue
      rw [hleft, hasked hzero, List.append_nil]
    · intro path hpath
      change path ∈ next.program.failed.filter (· != pending.path) at hpath
      rw [hfailed] at hpath
      exact Or.inl (hknown path hpath)

/-- Loading the queue keeps it. -/
theorem Works.drain (h : Works config kept others texts engine resolver)
    (hkept : Maintained config kept) (read : String → Option String)
    (henabled : (resolver.poll mail).isEnabled = true) (steps : Nat) :
    ∃ drained more, Works config kept others (texts ++ more)
        (engine.drain read mail steps).2.2 drained ∧
      resolver.Becomes mail drained ∧ drained.table = resolver.table ∧
      more.map Prod.fst = (engine.drain read mail steps).1 ∧
      (others = 0 → steps = engine.program.queue.length →
        more = engine.program.texts read ∧
        (engine.drain read mail steps).2.2.program.queue = [] ∧
        ∀ path ∈ (engine.drain read mail steps).2.2.program.failed,
          path ∈ engine.program.failed ∨ ∃ pending ∈ engine.program.queue,
            pending.text.or (read pending.path) = none) := by
  induction steps generalizing engine resolver texts with
  | zero =>
    refine ⟨resolver, [], ?_, .refl mail resolver, rfl, rfl, ?_⟩
    · rw [List.append_nil]
      exact h
    · intro _ hsteps
      have hqueue : engine.program.queue = [] := List.length_eq_zero_iff.1 hsteps.symm
      refine ⟨?_, hqueue, fun _ => Or.inl⟩
      unfold Program.texts
      rw [hqueue]
      rfl
  | succ steps ih =>
    cases hqueue : engine.program.queue with
    | nil =>
      rw [drain_of_empty hqueue]
      refine ⟨resolver, [], ?_, .refl mail resolver, rfl, rfl, ?_⟩
      · rw [List.append_nil]
        exact h
      · intro _ hsteps
        cases hsteps
    | cons pending queue =>
      obtain ⟨loaded, first, hloaded, hbecomes, htable, hfirst, hsome, hleft, hfailed⟩ :=
        h.loadNext hkept read henabled hqueue
      obtain ⟨drained, more, hdrained, hbecomes', htable', hpaths, hdone⟩ :=
        ih hloaded (hbecomes.isEnabled_polled.trans henabled)
      rw [drain_cons _ hqueue]
      refine ⟨drained, first ++ more, ?_, hbecomes.trans hbecomes', htable'.trans htable, ?_, ?_⟩
      · rw [← List.append_assoc]
        exact hdrained
      · rw [drain_succ _ hqueue, hsome, List.map_append, hpaths, hfirst]
        cases htext : pending.text.or (read pending.path) with
        | none => rfl
        | some text => rfl
      · intro hzero hsteps
        have hqueue' := hleft hzero
        obtain ⟨hmore, hempty, hall⟩ := hdone hzero (by
          rw [hqueue']
          exact Nat.succ.inj hsteps)
        refine ⟨?_, hempty, ?_⟩
        · rw [hfirst, hmore]
          unfold Program.texts
          rw [hqueue', hqueue]
          cases htext : pending.text.or (read pending.path) with
          | none => simp [htext]
          | some text => simp [htext]
        · intro path hpath
          rcases hall path hpath with hpath | ⟨other, hother, hnone⟩
          · rcases hfailed path hpath with hpath | ⟨_, hnone⟩
            · exact Or.inl hpath
            · exact Or.inr ⟨pending, by simp, hnone⟩
          · rw [hqueue'] at hother
            exact Or.inr ⟨other, by simp [hother], hnone⟩

/-- A look at the whole program keeps it and leaves nothing to do. -/
theorem Works.look (h : Works config kept others texts engine resolver)
    (hkept : Maintained config kept) (henabled : (resolver.poll mail).isEnabled = true) :
    ∃ looked, Works config kept others texts (engine.dispatch (Plugin.postInfer mail)) looked ∧
      resolver.Becomes mail looked ∧ looked.plugins = (resolver.poll mail).plugins ∧
      looked.table.poll mail = resolver.table.poll mail ∧
      Complete config mail (looked.work (engine.dispatch (Plugin.postInfer mail)).program) ∧
      (others = 0 → engine.program.queue = [] →
        (engine.dispatch (Plugin.postInfer mail)).program.failed = engine.program.failed ∧
        ∀ pending ∈ (engine.dispatch (Plugin.postInfer mail)).program.queue,
          Wanted config mail (looked.work (engine.dispatch (Plugin.postInfer mail)).program)
            pending) := by
  obtain ⟨first, last, hnone, hfirst, hlast, hhosts, hprogram⟩ :=
    h.hosts.dispatch (acts_postInfer mail)
  let start := resolver.work (engine.program.queueing first)
  let bound := bindProgram config mail start
  rw [postInfer_eq _ henabled, h.settings] at hhosts hprogram hlast
  have hstart : Ready config start := h.ready.requeue _ engine.program.failed
  have hheld : kept texts start := hkept.requeue _ _ _ engine.program.failed h.holds
  obtain ⟨hready, hadvances, _, _, _⟩ := hstart.bindProgram mail
  have horderly : bound.program.Orderly := hadvances.orderly (hfirst h.orderly)
  have hpassed : kept texts bound := hkept.pass _ _ mail hstart hheld
  obtain ⟨asked, hasked, hbound⟩ := hadvances.program
  have hqueue : bound.program.queue = engine.program.queue ++ first ++ asked := by
    have hqueue := congrArg Program.queue hbound
    exact hqueue
  rw [hprogram]
  refine ⟨((resolver.poll mail).after bound).1, ⟨hhosts, h.settings, ?_, ?_, ?_, ?_⟩,
    ⟨rfl, Or.inr rfl⟩, rfl, hadvances.polled, ?_, ?_⟩
  · rw [hprogram]
    exact hlast horderly
  · rw [hprogram]
    exact hready.requeue _ bound.program.failed
  · rw [hprogram]
    exact hkept.requeue _ _ _ bound.program.failed hpassed
  · intro path hpath
    have hpassed : Present bound.program path := by
      rw [hbound]
      exact ((h.present path hpath).queueing first).queueing asked
    rw [hprogram]
    exact hpassed.queueing last
  · exact (hstart.complete_bindProgram mail).queueing hlast
  · intro hzero hempty
    obtain ⟨rfl, rfl⟩ := hnone hzero
    rw [queueing_nil]
    constructor
    · have hfailed := congrArg Program.failed hbound
      exact hfailed
    · intro pending hpending
      rw [hempty, List.append_nil, List.nil_append] at hqueue
      exact (hasked pending (hqueue ▸ hpending)).advances hadvances

/-- An analysis keeps it and leaves nothing to do. -/
theorem Works.analyze (h : Works config kept others texts engine resolver)
    (hkept : Maintained config kept) (read : String → Option String)
    (henabled : (resolver.poll mail).isEnabled = true) :
    ∃ analyzed more, Works config kept others (texts ++ more)
        (engine.analyze read mail).2 analyzed ∧
      resolver.Becomes mail analyzed ∧ analyzed.plugins = (resolver.poll mail).plugins ∧
      analyzed.table.poll mail = resolver.table.poll mail ∧
      Complete config mail (analyzed.work (engine.analyze read mail).2.program) ∧
      more.map Prod.fst = (engine.analyze read mail).1.loaded ∧
      (others = 0 → more = engine.program.texts read ∧
        (∀ pending ∈ (engine.analyze read mail).2.program.queue,
          Wanted config mail (analyzed.work (engine.analyze read mail).2.program) pending) ∧
        ∀ path ∈ (engine.analyze read mail).2.program.failed,
          path ∈ engine.program.failed ∨ ∃ pending ∈ engine.program.queue,
            pending.text.or (read pending.path) = none) := by
  obtain ⟨drained, more, hdrained, hbecomes, htable, hpaths, hdone⟩ :=
    h.drain hkept read henabled engine.pending
  obtain ⟨looked, hlooked, hbecomes', hplugins, htable', hcomplete, hleft⟩ :=
    hdrained.look hkept (hbecomes.isEnabled_polled.trans henabled)
  have hanalyzed : (engine.analyze read mail).2 =
      (engine.drain read mail engine.pending).2.2.dispatch (Plugin.postInfer mail) := rfl
  rw [hanalyzed]
  refine ⟨looked, more, hlooked, hbecomes.trans hbecomes', hplugins.trans hbecomes.polled,
    htable'.trans (by rw [htable]), hcomplete, hpaths, ?_⟩
  intro hzero
  subst hzero
  obtain ⟨hmore, hempty, hfailed⟩ := hdone rfl h.hosts.pending
  obtain ⟨hsame, hwanted⟩ := hleft rfl hempty
  refine ⟨hmore, hwanted, ?_⟩
  rw [hsame]
  exact hfailed

theorem Works.addFile (h : Works config kept others texts engine resolver)
    (hkept : Maintained config kept) (path : String) (text origin : Option String) :
    Works config kept others texts (engine.step (.addFile path text origin)) resolver := by
  obtain ⟨more, hmore, hmay⟩ := addFile_eq_queueing engine.program path text origin
  have hstep : engine.step (.addFile path text origin) =
      { engine with program := engine.program.queueing more } := by
    change ({ engine with program := (engine.program.addFile path text origin).2 } :
      Engine Installed) = _
    rw [hmore]
  rw [hstep]
  refine ⟨h.hosts, h.settings, hmay h.orderly, h.ready.requeue _ engine.program.failed,
    hkept.requeue _ _ _ engine.program.failed h.holds, ?_⟩
  exact fun path hpath => (h.present path hpath).queueing more

theorem Works.updateFile (h : Works config kept others texts engine resolver)
    (hkept : Maintained config kept) (path text : String) :
    Works config kept others texts (engine.step (.updateFile path text)) resolver := by
  refine ⟨h.hosts, h.settings, h.orderly.updateFile path text, h.ready.updateFile path text,
    hkept.update texts _ path text h.ready h.holds, ?_⟩
  exact fun other hother => (h.present other hother).updateFile path text

/-! ### Runs -/

/-- The engine has one resolver, and as long as that is enabled the session keeps what it is to
    keep. `loaded` are the paths loaded so far, and `expected` are the texts if no plugin asked for
    any. -/
def Sane (config : Config) (kept : List (String × String) → Work → Prop) (others : Nat)
    (expected : List (String × String)) (loaded : List String) (engine : Engine Installed) : Prop :=
  ∃ resolver, engine.Hosts resolver others ∧ resolver.Waits ∧
    (resolver.isEnabled = true → ∃ texts, (others = 0 → texts = expected) ∧
      texts.map Prod.fst = loaded ∧ Works config kept others texts engine resolver)

/-- A session that has seen no file yet, with one resolver among recorders. -/
def Starts (config : Config) (others : Nat) (engine : Engine Installed) : Prop :=
  ∃ resolver, engine.Hosts resolver others ∧ resolver.Fresh config ∧ engine.program = .initial

theorem Works.start (hhosts : engine.Hosts resolver others) (hfresh : resolver.Fresh config)
    (hprogram : engine.program = .initial) (hkept : Invariant config kept) :
    Works config kept others [] engine resolver := by
  have hwork : resolver.work engine.program = ⟨.initial, .initial, resolver.table⟩ := by
    unfold ResolverPlugin.work
    rw [hprogram, hfresh.state]
  refine ⟨hhosts, hfresh.settings, ?_, ?_, ?_, fun path hpath => by cases hpath⟩
  · rw [hprogram]
    exact .initial
  · rw [hwork]
    exact .start config resolver.table
  · rw [hwork]
    exact hkept.start resolver.table

theorem Starts.sane (h : engine.Starts config others) (hkept : Invariant config kept) :
    Sane config kept others [] [] engine := by
  obtain ⟨resolver, hhosts, hfresh, hprogram⟩ := h
  exact ⟨resolver, hhosts, hfresh.waits,
    fun _ => ⟨[], fun _ => rfl, rfl, .start hhosts hfresh hprogram hkept⟩⟩

/-- An analysis that an enabled resolver comes out of leaves nothing to do. -/
theorem Sane.analyze {expected : List (String × String)} {loaded : List String}
    (h : Sane config kept others expected loaded engine) (hkept : Maintained config kept)
    (hresolver : (engine.step (.analyze read mail)).resolver? = some resolver)
    (henabled : resolver.isEnabled = true) :
    ∃ texts, (others = 0 → texts = expected ++ engine.program.texts read) ∧
      texts.map Prod.fst = loaded ++ (engine.analyze read mail).1.loaded ∧
      Works config kept others texts (engine.step (.analyze read mail)) resolver ∧
      resolver.poll mail = resolver ∧
      Complete config mail (resolver.work (engine.step (.analyze read mail)).program) ∧
      (others = 0 → ∀ pending ∈ (engine.step (.analyze read mail)).program.queue,
        Wanted config mail (resolver.work (engine.step (.analyze read mail)).program) pending) := by
  obtain ⟨former, hhosts, hwaits, hworks⟩ := h
  obtain ⟨analyzed, hanalyzed, hbecomes, hplugins⟩ :=
    @Hosts.analyze_becomes mail read _ _ _ _ hhosts
  obtain rfl : resolver = analyzed := by
    have hfound := hanalyzed.resolver?
    rw [show (engine.analyze read mail).2.resolver? = some resolver from hresolver] at hfound
    exact Option.some.inj hfound
  have hpolled : (former.poll mail).isEnabled = true := by
    have hsame : resolver.isEnabled = (former.poll mail).isEnabled :=
      ResolverPlugin.isEnabled_of_eq hbecomes.config hplugins
    rwa [hsame] at henabled
  obtain ⟨texts, hexpected, hloaded, hbefore⟩ := hworks (hwaits.isEnabled hpolled)
  obtain ⟨other, more, hafter, _, _, _, hcomplete, hpaths, hdone⟩ :=
    hbefore.analyze hkept read hpolled
  obtain rfl : other = resolver := by
    have hfound := hafter.hosts.resolver?
    rw [hanalyzed.resolver?] at hfound
    exact (Option.some.inj hfound).symm
  refine ⟨texts ++ more, ?_, ?_, hafter, ?_, hcomplete, fun hzero => (hdone hzero).2.1⟩
  · intro hzero
    rw [hexpected hzero, (hdone hzero).1]
  · rw [List.map_append, hloaded, hpaths]
  · have hsame : (other.poll mail).plugins = other.plugins := by
      rw [hplugins]
      exact hbecomes.polled
    change { other with plugins := (other.poll mail).plugins } = other
    rw [hsame]

/-- Every step keeps a session sane. -/
theorem Sane.step {expected : List (String × String)} {loaded : List String}
    (h : Sane config kept others expected loaded engine) (hkept : Maintained config kept)
    (step : Step) :
    Sane config kept others (expected ++ engine.history [step]) (loaded ++ engine.loadsOf step)
      (engine.step step) := by
  have hsane := h
  obtain ⟨resolver, hhosts, hwaits, henabled⟩ := h
  cases step with
  | addFile path text origin =>
    refine ⟨resolver, hhosts, hwaits, ?_⟩
    intro hon
    obtain ⟨texts, hexpected, hloaded, hworks⟩ := henabled hon
    refine ⟨texts, ?_, ?_, hworks.addFile hkept path text origin⟩
    · intro hzero
      rw [hexpected hzero]
      simp [history]
    · simp [hloaded, loadsOf]
  | updateFile path text =>
    refine ⟨resolver, hhosts, hwaits, ?_⟩
    intro hon
    obtain ⟨texts, hexpected, hloaded, hworks⟩ := henabled hon
    refine ⟨texts, ?_, ?_, hworks.updateFile hkept path text⟩
    · intro hzero
      rw [hexpected hzero]
      simp [history]
    · simp [hloaded, loadsOf]
  | analyze read mail =>
    obtain ⟨analyzed, hanalyzed, hbecomes, _⟩ := @Hosts.analyze_becomes mail read _ _ _ _ hhosts
    refine ⟨analyzed, hanalyzed, hbecomes.waits hwaits, ?_⟩
    intro hon
    obtain ⟨texts, hexpected, hloaded, hworks, _⟩ :=
      hsane.analyze hkept hanalyzed.resolver? hon
    refine ⟨texts, ?_, hloaded, hworks⟩
    intro hzero
    rw [hexpected hzero]
    simp [history]

/-- Every run keeps a session sane. -/
theorem Sane.run {expected : List (String × String)} {loaded : List String}
    (h : Sane config kept others expected loaded engine) (hkept : Maintained config kept)
    (steps : List Step) :
    Sane config kept others (expected ++ engine.history steps) (loaded ++ engine.loads steps)
      (engine.run steps) := by
  induction steps generalizing engine expected loaded with
  | nil =>
    unfold history loads
    rw [List.append_nil, List.append_nil]
    exact h
  | cons first rest ih =>
    rw [history_cons, loads, ← List.append_assoc, ← List.append_assoc]
    exact ih (h.step hkept first)

/-- What an enabled resolver has kept after a run, with the paths that were loaded in it. -/
theorem Starts.works (h : engine.Starts config others) (hkept : Invariant config kept)
    {steps : List Step} (hresolver : (engine.run steps).resolver? = some resolver)
    (henabled : resolver.isEnabled = true) :
    ∃ texts, texts.map Prod.fst = engine.loads steps ∧
      Works config kept others texts (engine.run steps) resolver := by
  obtain ⟨last, hhosts, _, hworks⟩ := (h.sane hkept).run hkept.toMaintained steps
  rw [hhosts.resolver?] at hresolver
  obtain rfl := Option.some.inj hresolver
  obtain ⟨texts, _, hloaded, hlast⟩ := hworks henabled
  exact ⟨texts, hloaded, hlast⟩

/-- An analysis at the end of a run leaves nothing to do. -/
theorem Starts.analyzed (h : engine.Starts config others) (hkept : Invariant config kept)
    {steps : List Step} (hresolver : (engine.run (steps ++ [.analyze read mail])).resolver? =
      some resolver) (henabled : resolver.isEnabled = true) :
    ∃ texts, (others = 0 → texts = engine.history (steps ++ [.analyze read mail])) ∧
      Works config kept others texts (engine.run (steps ++ [.analyze read mail])) resolver ∧
      resolver.poll mail = resolver ∧
      Complete config mail
        (resolver.work (engine.run (steps ++ [.analyze read mail])).program) ∧
      (others = 0 → ∀ pending ∈ (engine.run (steps ++ [.analyze read mail])).program.queue,
        Wanted config mail
          (resolver.work (engine.run (steps ++ [.analyze read mail])).program) pending) := by
  have hrun : engine.run (steps ++ [.analyze read mail]) =
      (engine.run steps).step (.analyze read mail) := run_append engine steps [.analyze read mail]
  rw [hrun] at hresolver ⊢
  rw [history_append]
  have hsane := (h.sane hkept).run hkept.toMaintained steps
  rw [List.nil_append, List.nil_append] at hsane
  have hlast : (engine.run steps).history [.analyze read mail] =
      (engine.run steps).program.texts read := by
    simp [history]
  rw [hlast]
  obtain ⟨texts, hexpected, _, hrest⟩ := hsane.analyze hkept.toMaintained hresolver henabled
  exact ⟨texts, hexpected, hrest⟩

end Engine

end Capabilities.Session
