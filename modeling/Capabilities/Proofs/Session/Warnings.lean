import Capabilities.Proofs.Resolver.Warnings
import Capabilities.Proofs.Session.Order
import Capabilities.Proofs.Session.Providers
import Capabilities.Script.Parse

/-!
# What a session reports

The looks that an enabled resolver takes at the whole program decide which capabilities are reported
and whether the missing path table is: just those that are due in one of them (`Look.Due`). For one
part of a session `Tells` says that the diagnostics grow by no more than this, and that what
is due is there afterwards. Parts follow one another, so it holds of any number of them, and since
no subject is reported twice from the start on, none ever is.

That what is due gets reported needs a pass that does not stop half-way, so it rests on what an
enabled resolver leaves when it has looked (`Complete`). That nothing else is reported holds of
any pass.
-/

namespace Capabilities.Resolver

open Host Session

variable {config : Config} {mail : Mail} {before after work : Work} {subject : Subject}

/-- Whether something is due shows in the files, the registry and the path table. -/
theorem Due.congr (h : Due config mail before subject)
    (hfiles : after.program.files = before.program.files)
    (hregistry : after.state.registry = before.state.registry)
    (hpolled : after.table.poll mail = before.table.poll mail) : Due config mail after subject := by
  cases subject with
  | capability name =>
    obtain ⟨file, hlacks, hnone⟩ := h
    refine ⟨file, hlacks.congr hfiles hregistry, ?_⟩
    rw [hpolled]
    exact hnone
  | table =>
    obtain ⟨⟨file, name, hlacks⟩, hnone⟩ := h
    refine ⟨⟨file, name, hlacks.congr hfiles hregistry⟩, ?_⟩
    rw [hpolled]
    exact hnone
  | problem file warning => exact h

/-- When nothing is left to do, what is due was reported. -/
theorem Complete.reported [Script.Parser] (h : Complete config mail work)
    (hready : Ready config work) (honce : work.state.Once) (hdue : Due config mail work subject) :
    subject ∈ work.state.subjects := by
  cases subject with
  | capability name =>
    have hmissed : Missed config mail work name := hdue
    exact (honce.capability name).1 (hmissed.warned h hready)
  | table =>
    obtain ⟨⟨file, name, hlacks⟩, hnone⟩ := hdue
    have hhandled := h.handled hready hlacks
    rw [hhandled.polled] at hnone
    have hresolve : work.table.resolve name = .notYetAvailable := by
      unfold PathTable.resolve
      rw [hnone]
    exact honce.table.1 (hhandled.unavailable hresolve).1
  | problem file warning => exact hdue.elim

end Capabilities.Resolver

namespace Capabilities.Session

open Host Resolver

variable {config : Config} {mail : Mail} {resolver : ResolverPlugin}

/-! ### Looks at the whole program -/

/-- A look at the whole program: the letters of the host, and the engine right before it. -/
structure Look where
  mail : Mail
  engine : Engine Installed

/-- An enabled resolver finds a capability, or the path table, due to be reported. -/
def Look.Due (config : Config) (look : Look) (subject : Subject) : Prop :=
  ∃ resolver, look.engine.resolver? = some resolver ∧
    (resolver.poll look.mail).isEnabled = true ∧
    Resolver.Due config look.mail (resolver.work look.engine.program) subject

/-- The diagnostics go from one state to another in the course of some looks. -/
structure Tells (config : Config) (looks : List Look) (before after : State) : Prop where
  logs : before.Logs (fun subject => subject.IsProblem ∨ ∃ look ∈ looks, look.Due config subject)
    after
  told : before.Once → ∀ look ∈ looks, ∀ subject, look.Due config subject →
    subject ∈ after.subjects

theorem Tells.of_logs {before after : State}
    (h : before.Logs Subject.IsProblem after) : Tells config [] before after :=
  ⟨h.mono fun _ => Or.inl, fun _ _ hlook => by cases hlook⟩

theorem Tells.trans {first second third : State} {looks more : List Look}
    (h : Tells config looks first second) (h' : Tells config more second third) :
    Tells config (looks ++ more) first third := by
  constructor
  · refine (h.logs.mono fun subject hsubject => hsubject.imp id ?_).trans
      (h'.logs.mono fun subject hsubject => hsubject.imp id ?_)
    · rintro ⟨look, hlook, hdue⟩
      exact ⟨look, List.mem_append_left _ hlook, hdue⟩
    · rintro ⟨look, hlook, hdue⟩
      exact ⟨look, List.mem_append_right _ hlook, hdue⟩
  · intro honce look hlook subject hdue
    rcases List.mem_append.1 hlook with hlook | hlook
    · exact h'.logs.mem_subjects.1 (h.told honce look hlook subject hdue)
    · exact h'.told (h.logs.once honce) look hlook subject hdue

/-- From the start on, what is reported besides problems of files is what was due in some look. -/
theorem Tells.mem_subjects_iff {after : State} {looks : List Look} {subject : Subject}
    (h : Tells config looks .initial after) (hsubject : ¬ subject.IsProblem) :
    subject ∈ after.subjects ↔ ∃ look ∈ looks, look.Due config subject := by
  constructor
  · intro hmem
    rcases h.logs.mem_subjects.2 hmem with hnone | hproblem | hdue
    · cases hnone
    · exact absurd hproblem hsubject
    · exact hdue
  · rintro ⟨look, hlook, hdue⟩
    exact h.told State.once_initial look hlook subject hdue

/-! ### Hooks -/

theorem logs_beforeLoad (mail : Mail) (path : String) (resolver : ResolverPlugin)
    (program : Program) : resolver.state.Logs Subject.IsProblem
      (ResolverPlugin.beforeLoad mail path resolver program).1.state := by
  unfold ResolverPlugin.beforeLoad
  dsimp only
  split
  · exact .of_same rfl rfl rfl rfl
  · exact .refl resolver.state

theorem logs_afterLoad (mail : Mail) (path : String) (resolver : ResolverPlugin)
    (program : Program) : resolver.state.Logs Subject.IsProblem
      (ResolverPlugin.afterLoad mail path resolver program).1.state := by
  unfold ResolverPlugin.afterLoad
  dsimp only
  split
  · exact (logs_synthesize resolver.config path (resolver.work program)).trans
      (.of_same rfl rfl rfl rfl)
  · exact .refl resolver.state

theorem logs_postInfer (program : Program) (h : (resolver.poll mail).isEnabled = true) :
    resolver.state.Logs (Reportable resolver.config mail (resolver.work program))
      (ResolverPlugin.postInfer mail resolver program).1.state := by
  rw [Engine.postInfer_eq program h]
  exact logs_bindProgram resolver.config mail (resolver.work program)

namespace Engine

variable {others : Nat} {engine : Engine Installed} {pending : PendingFile}
  {queue : List PendingFile}

section

variable [Script.Parser]

/-- Loading a file reports problems of files only. -/
theorem Hosts.loadNext_logs (h : engine.Hosts resolver others) (horder : engine.InOrder)
    (read : String → Option String) (mail : Mail) (pending : PendingFile)
    (queue : List PendingFile) :
    ∃ loaded, (engine.loadNext read mail pending queue).Hosts loaded others ∧
      resolver.Becomes mail loaded ∧ resolver.state.Logs Subject.IsProblem loaded.state := by
  rcases loadNext_cases horder.primitives read mail pending queue with
    ⟨-, hnext⟩ | ⟨text, inference, store, -, -, -, hnext⟩
  · rw [hnext]
    exact ⟨resolver, h, .refl mail resolver, .refl resolver.state⟩
  · rw [hnext]
    let opened : Engine Installed := (engine.popping queue).opening pending text
    obtain ⟨first, -, -, -, -, hannounced, -⟩ :=
      (show opened.Hosts resolver others from h).dispatch (acts_beforeLoad mail pending.path)
    obtain ⟨second, -, -, -, -, hloaded, -⟩ :=
      (hannounced.withProgram _).dispatch (acts_afterLoad mail pending.path)
    exact ⟨_, hloaded, (becomes_beforeLoad pending.path _).trans (becomes_afterLoad pending.path _),
      (logs_beforeLoad mail pending.path resolver _).trans
        (logs_afterLoad mail pending.path _ _)⟩

/-! ### Parts of a session -/

def looksOf (engine : Engine Installed) : Action → List Look
  | .step (.analyze read mail) => [⟨mail, (engine.drain read mail engine.pending).2.2⟩]
  | .look mail => [⟨mail, engine⟩]
  | _ => []

def looks (engine : Engine Installed) : List Action → List Look
  | [] => []
  | first :: rest => engine.looksOf first ++ (engine.act first).looks rest

/-- A session in order with a resolver among recorders, whether the resolver is enabled or not. -/
structure Reporting (config : Config) (others : Nat) (engine : Engine Installed)
    (resolver : ResolverPlugin) : Prop
    extends Watches config (fun _ _ => True) (fun _ _ => True) others engine resolver where
  order : engine.InOrder
  settings : resolver.config = config

theorem outlasts_true (config : Config) :
    Outlasts config (fun _ _ => True) fun _ _ => True :=
  ⟨(invariant_true config).toMaintained, fun _ _ _ _ => trivial, fun _ _ _ _ _ _ _ => trivial⟩

theorem Starts.reporting (h : engine.Starts config others) :
    ∃ resolver, Reporting config others engine resolver ∧ resolver.state = .initial := by
  have horder := h.inOrder
  obtain ⟨resolver, hhosts, hfresh, hprogram⟩ := h
  have hwatches := (Works.start hhosts hfresh hprogram (invariant_true config)).watches
    (outlasts_true config) hfresh.waits
  exact ⟨resolver, ⟨hwatches, horder, hfresh.settings⟩, hfresh.state⟩

/-- What a part does to the resolver tells what the session goes on with. -/
theorem Reporting.next {next : Engine Installed} {later : ResolverPlugin}
    (h : Reporting config others engine resolver) (horder : next.InOrder)
    (hwatches : ∃ other, Watches config (fun _ _ => True) (fun _ _ => True) others next other)
    (hhosts : next.Hosts later others) (hconfig : later.config = resolver.config) :
    Reporting config others next later := by
  obtain ⟨other, hother⟩ := hwatches
  obtain rfl := hother.hosts.unique hhosts
  exact ⟨hother, horder, hconfig.trans h.settings⟩

theorem Reporting.loadNext (h : Reporting config others engine resolver)
    (hqueue : engine.program.queue = pending :: queue) (read : String → Option String)
    (mail : Mail) :
    ∃ later, Reporting config others (engine.loadNext read mail pending queue) later ∧
      Tells config [] resolver.state later.state := by
  obtain ⟨loaded, hloaded, hbecomes, hlogs⟩ :=
    h.hosts.loadNext_logs h.order read mail pending queue
  exact ⟨loaded, h.next (h.order.next read mail hqueue).1
    (h.toWatches.loadNext (outlasts_true config) hqueue read mail) hloaded hbecomes.config,
    .of_logs hlogs⟩

theorem Reporting.loads (h : Reporting config others engine resolver)
    (read : String → Option String) (mail : Mail) (count : Nat) :
    ∃ later, Reporting config others
        (engine.perform (List.replicate count (.load read mail))) later ∧
      Tells config [] resolver.state later.state := by
  induction count generalizing engine resolver with
  | zero => exact ⟨resolver, h, .of_logs (.refl resolver.state)⟩
  | succ count ih =>
    have hperform : engine.perform (List.replicate (count + 1) (.load read mail)) =
        (engine.act (.load read mail)).perform (List.replicate count (.load read mail)) := rfl
    rw [hperform]
    cases hqueue : engine.program.queue with
    | nil =>
      rw [act_load_nil read mail hqueue]
      exact ih h
    | cons pending queue =>
      obtain ⟨loaded, hloaded, htells⟩ := h.loadNext hqueue read mail
      obtain ⟨later, hlater, htells'⟩ := ih hloaded
      rw [act_load_cons read mail hqueue]
      exact ⟨later, hlater, htells.trans htells'⟩

/-- A look reports what is due in it, and besides problems of files nothing else. -/
theorem Reporting.look (h : Reporting config others engine resolver) (mail : Mail) :
    ∃ later, Reporting config others (engine.dispatch (Plugin.postInfer mail)) later ∧
      Tells config [⟨mail, engine⟩] resolver.state later.state := by
  have hwatches := h.toWatches.look (outlasts_true config) mail
  have horder := endures_inOrder.look engine mail h.order
  by_cases hon : (resolver.poll mail).isEnabled = true
  · obtain ⟨texts, hworks⟩ := h.works (h.waits.isEnabled hon)
    obtain ⟨looked, hlooked, hbecomes, -, -, hcomplete, -⟩ :=
      hworks.look (invariant_true config).toMaintained hon
    obtain ⟨first, last, -, -, -, hhosts, hprogram⟩ := h.hosts.dispatch (acts_postInfer mail)
    obtain rfl := hhosts.unique hlooked.hosts
    have hvisits := visits_postInfer mail resolver (engine.program.queueing first)
    have hlogs := logs_postInfer (engine.program.queueing first) hon
    rw [h.settings] at hlogs
    refine ⟨_, h.next horder hwatches hlooked.hosts hbecomes.config, ?_, ?_⟩
    · refine hlogs.mono fun subject hsubject => hsubject.imp id fun hdue => ?_
      exact ⟨_, List.mem_singleton.2 rfl, resolver, h.hosts.resolver?, hon,
        hdue.congr rfl rfl rfl⟩
    · intro honce look hlook subject hdue
      obtain rfl := List.mem_singleton.1 hlook
      obtain ⟨other, hother, -, hdue⟩ := hdue
      obtain rfl := Option.some.inj (h.hosts.resolver?.symm.trans hother)
      refine hcomplete.reported hlooked.ready (hlogs.once honce)
        (hdue.congr ?_ hvisits.registry hvisits.toServes.polled)
      rw [hprogram]
      exact hvisits.program.files
  · obtain ⟨hhosts, -⟩ := h.hosts.dispatch_disabled (acts_postInfer mail)
      fun program => postInfer_disabled hon
    refine ⟨_, h.next horder hwatches hhosts rfl, ?_, ?_⟩
    · exact .refl resolver.state
    · intro _ look hlook subject hdue
      obtain rfl := List.mem_singleton.1 hlook
      obtain ⟨other, hother, henabled, -⟩ := hdue
      obtain rfl := Option.some.inj (h.hosts.resolver?.symm.trans hother)
      exact absurd henabled hon

/-- Adding or updating a file reports nothing. -/
theorem Reporting.edit {action : Action} (h : Reporting config others engine resolver)
    (hplugins : (engine.act action).plugins = engine.plugins) :
    ∃ later, Reporting config others (engine.act action) later ∧
      Tells config [] resolver.state later.state := by
  have hhosts : (engine.act action).Hosts resolver others := by
    unfold Hosts
    rw [hplugins]
    exact h.hosts
  exact ⟨resolver, h.next (endures_inOrder.act engine action h.order)
    ((endures_watches (outlasts_true config) others).act engine action ⟨resolver, h.toWatches⟩)
    hhosts rfl, .of_logs (.refl resolver.state)⟩

theorem Reporting.act (h : Reporting config others engine resolver) (action : Action) :
    ∃ later, Reporting config others (engine.act action) later ∧
      Tells config (engine.looksOf action) resolver.state later.state := by
  cases action with
  | step step =>
    cases step with
    | addFile path text origin => exact h.edit rfl
    | updateFile path text => exact h.edit rfl
    | analyze read mail =>
      obtain ⟨drained, hdrained, htells⟩ := h.loads read mail engine.pending
      rw [← drain_eq_perform] at hdrained
      obtain ⟨later, hlater, htells'⟩ := hdrained.look mail
      exact ⟨later, hlater, htells.trans htells'⟩
  | load read mail => exact h.loads read mail 1
  | look mail => exact h.look mail

/-- However a session goes on, its diagnostics grow by what is due in its looks, and by problems of
    files. -/
theorem Reporting.perform (h : Reporting config others engine resolver) (actions : List Action) :
    ∃ later, Reporting config others (engine.perform actions) later ∧
      Tells config (engine.looks actions) resolver.state later.state := by
  induction actions generalizing engine resolver with
  | nil => exact ⟨resolver, h, .of_logs (.refl resolver.state)⟩
  | cons action rest ih =>
    obtain ⟨next, hnext, htells⟩ := h.act action
    obtain ⟨later, hlater, htells'⟩ := ih hnext
    exact ⟨later, hlater, htells.trans htells'⟩

/-! ### Whole sessions -/

/-- At every moment of a session no two diagnostics are about the same capability, about the path
    table, or about the same problem of the same file. There is one about a capability if and only
    if in some look of an enabled resolver a loaded consumer declared it, nobody had registered it
    and no module could be asked for; and one about the path table if and only if in such a look a
    consumer lacked something and the table had not arrived. Whatever comes next, diagnostics are
    only added at the end. -/
theorem warned_once (hstart : engine.Starts config others) (actions : List Action) :
    ∃ resolver, (engine.perform actions).resolver? = some resolver ∧
      resolver.state.subjects.Nodup ∧
      (∀ name, .capability name ∈ resolver.state.subjects ↔
        ∃ look ∈ engine.looks actions, look.Due config (.capability name)) ∧
      (.table ∈ resolver.state.subjects ↔
        ∃ look ∈ engine.looks actions, look.Due config .table) ∧
      ∀ more, ∃ later, (engine.perform (actions ++ more)).resolver? = some later ∧
        resolver.state.diagnostics <+: later.state.diagnostics := by
  obtain ⟨first, hfirst, hstate⟩ := hstart.reporting
  obtain ⟨resolver, hreporting, htells⟩ := hfirst.perform actions
  rw [hstate] at htells
  refine ⟨resolver, hreporting.hosts.resolver?, (htells.logs.once State.once_initial).nodup,
    fun name => htells.mem_subjects_iff id, htells.mem_subjects_iff id, ?_⟩
  intro more
  obtain ⟨later, hlater, hmore⟩ := hreporting.perform more
  rw [perform_append]
  exact ⟨later, hlater.hosts.resolver?, hmore.logs.diagnostics_prefix⟩

end

/-- An engine whose resolver waits for the path table, next to a recorder that only listens. -/
def unguided : Engine Installed :=
  .new [.recorder ⟨[], []⟩,
    .resolver ⟨.default, .initial, .requested (.awaiting ⟨0⟩), none⟩]

theorem starts_unguided : unguided.Starts .default 1 := by
  refine ⟨_, ⟨[⟨[], []⟩], [], rfl, rfl⟩, ⟨rfl, rfl, ?_⟩, rfl⟩
  intro reply hreply
  cases hreply

def guidingMail : Mail := [.answered (.paths ⟨[(.of "fs", "plugins/b/index")]⟩)]

/-- A consumer lacks two capabilities before the table has arrived, and again afterwards. Another
    one that lacks both is not in the modules directory. -/
def guidedActions : List Action :=
  [.step (.addFile "/m/plugins/a/index.js" (some orphanText) none),
    .step (.analyze (fun _ => none) [.awaited]),
    .step (.addFile "/c.js" (some orphanText) none), .load (fun _ => none) guidingMail,
    .look guidingMail]

theorem performed_guided :
    let session := unguided.perform guidedActions
    session.resolver?.map (fun resolver => resolver.state.subjects) =
        some [.table, .capability "fs", .capability "net"] ∧
      session.program.queued = ["/m/plugins/b/index.js"] := by
  decide +kernel

theorem warned_once_guided :
    unguided.Starts .default 1 ∧
    (∃ look ∈ unguided.looks guidedActions, look.Due .default .table) ∧
    (∃ look ∈ unguided.looks guidedActions, look.Due .default (.capability "fs")) ∧
    ¬∃ look ∈ unguided.looks guidedActions, look.Due .default (.capability "tty") := by
  obtain ⟨resolver, hresolver, -, hcapability, htable, -⟩ :=
    warned_once starts_unguided guidedActions
  have hsubjects := performed_guided.1
  rw [hresolver] at hsubjects
  have hthere : resolver.state.subjects = [.table, .capability "fs", .capability "net"] :=
    Option.some.inj hsubjects
  rw [hthere] at hcapability htable
  refine ⟨starts_unguided, htable.1 ?_, (hcapability "fs").1 ?_,
    fun hdue => absurd ((hcapability "tty").2 hdue) ?_⟩
  · decide
  · decide
  · decide

end Engine

end Capabilities.Session
