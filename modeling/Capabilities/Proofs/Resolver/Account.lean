import Capabilities.Proofs.Resolver.Registration
import Capabilities.Resolver.Binding

/-!
# Accounting for what is missing

When a name of a binding has no type, it is on record why: the capability was warned about, or the
path table names a module for it and the file of that module is loaded, waits to be loaded or could
not be loaded. `Accounted` says so of all bindings that are stored.

This holds whatever the store makes of the steps of resolving: a refusal ends a step early, and what
came before it is accounted for already. So no invariant of the store is needed here.
-/

namespace Capabilities.Host

/-! ### The path table while it is waited for -/

/-- Nothing is known of the path table as long as it is waited for. -/
def PathTable.Waits (table : PathTable) : Prop :=
  ∀ reply, table = .requested reply → reply.ticket.isSome = true → reply.state = .notYetAvailable

namespace PathTable

variable {table : PathTable} {paths : CapabilityPaths}

theorem waits_notRequested : notRequested.Waits := by
  intro reply h
  cases h

theorem waits_fixed (paths : CapabilityPaths) : (fixed paths).Waits := by
  intro reply h hticket
  cases h
  cases hticket

theorem waits_awaiting (ticket : Ticket) : (requested (.awaiting ticket)).Waits := by
  intro reply h _
  cases h
  rfl

theorem Waits.poll (h : table.Waits) (mail : Mail) : (table.poll mail).Waits := by
  cases table with
  | notRequested => exact h
  | requested reply =>
    intro polled hpolled hticket
    cases hpolled
    rcases Resolver.poll_reply_cases mail reply with hsame | hnone
    · rw [hsame] at hticket ⊢
      exact h reply rfl hticket
    · rw [hnone] at hticket
      cases hticket

/-- A table that has arrived is not looked for any more. -/
theorem Waits.poll_of_paths? (h : table.Waits) (mail : Mail) (hpaths : table.paths? = some paths) :
    table.poll mail = table := by
  cases table with
  | notRequested => rfl
  | requested reply =>
    have hticket : reply.ticket = none := by
      cases hticket : reply.ticket with
      | none => rfl
      | some ticket =>
        have hstate := h reply rfl (by rw [hticket]; rfl)
        simp only [paths?, hstate] at hpaths
        cases hpaths
    simp only [PathTable.poll, PendingReply.poll, hticket]

theorem resolve_eq_found {name relative : String} (h : table.resolve name = .found relative) :
    ∃ paths, table.paths? = some paths ∧ paths.get? name = some relative := by
  unfold resolve at h
  split at h
  · cases h
  · rename_i paths hpaths
    split at h
    · rename_i path hpath
      cases h
      exact ⟨paths, hpaths, hpath⟩
    · cases h

end PathTable

end Capabilities.Host

namespace Capabilities.Session

/-- A path is loaded, waits to be loaded, or could not be loaded. -/
def Program.Knows (program : Program) (path : String) : Prop :=
  program.isLoaded path = true ∨ program.isQueued path = true ∨ program.hasFailed path = true

instance (program : Program) : DecidablePred program.Knows := fun path =>
  inferInstanceAs (Decidable (program.isLoaded path = true ∨ program.isQueued path = true ∨
    program.hasFailed path = true))

end Capabilities.Session

namespace Capabilities.Resolver

open Host Session Capabilities.Types Capabilities.Module

/-! ### What is on record -/

/-- A problem with the capability is among the diagnostics. -/
def State.Reported (state : State) (name : String) : Prop :=
  ∃ diagnostic ∈ state.diagnostics, diagnostic.warning.capability? = some name

/-- Why a name of a file has no type is on record. -/
def Explained (config : Config) (work : Work) (file name : String) : Prop :=
  work.state.warnedAbout name = true ∧ work.state.Reported name ∨
    ∃ paths relative root, work.table.paths? = some paths ∧ paths.get? name = some relative ∧
      config.modulesRoot? file = some root ∧
      work.program.Knows (root ++ relative ++ config.moduleExtension)

/-- All that is missing is accounted for. -/
structure Accounted (config : Config) (work : Work) : Prop where
  table : work.table.Waits
  reported : ∀ name, work.state.warnedAbout name = true → work.state.Reported name
  explained : ∀ file binding name, work.state.binding? file = some binding →
    name ∈ binding.unresolved → Explained config work file name

theorem Accounted.start {table : PathTable} (h : table.Waits) (config : Config)
    (program : Program) : Accounted config ⟨program, .initial, table⟩ := by
  constructor
  · exact h
  · rintro name ⟨⟩
  · rintro file binding name ⟨⟩

/-- What is on record stays on record. -/
structure Work.Recalls (before after : Work) : Prop where
  warned : ∀ name, before.state.warnedAbout name = true → after.state.warnedAbout name = true
  reported : ∀ name, before.state.Reported name → after.state.Reported name
  paths : ∀ paths, before.table.paths? = some paths → after.table.paths? = some paths
  known : ∀ path, before.program.Knows path → after.program.Knows path

theorem Work.Recalls.refl (work : Work) : work.Recalls work :=
  ⟨fun _ => id, fun _ => id, fun _ => id, fun _ => id⟩

theorem Work.Recalls.trans {first second third : Work} (h : first.Recalls second)
    (h' : second.Recalls third) : first.Recalls third :=
  ⟨fun name hname => h'.warned name (h.warned name hname),
    fun name hname => h'.reported name (h.reported name hname),
    fun paths hpaths => h'.paths paths (h.paths paths hpaths),
    fun path hpath => h'.known path (h.known path hpath)⟩

theorem Explained.recalls {config : Config} {before after : Work} {file name : String}
    (h : Explained config before file name) (hrecalls : before.Recalls after) :
    Explained config after file name := by
  rcases h with ⟨hwarned, hreported⟩ | ⟨paths, relative, root, hpaths, hrelative, hroot, hknown⟩
  · exact Or.inl ⟨hrecalls.warned name hwarned, hrecalls.reported name hreported⟩
  · exact Or.inr ⟨paths, relative, root, hrecalls.paths paths hpaths, hrelative, hroot,
      hrecalls.known _ hknown⟩

/-- Bindings may be forgotten as long as what is on record stays. -/
theorem Accounted.recalls {config : Config} {before after : Work} (h : Accounted config before)
    (hrecalls : before.Recalls after) (htable : after.table.Waits)
    (hreported : ∀ name, after.state.warnedAbout name = true → after.state.Reported name)
    (hbindings : ∀ file binding, after.state.binding? file = some binding →
      before.state.binding? file = some binding) : Accounted config after :=
  ⟨htable, hreported, fun file binding name hbinding hname =>
    (h.explained file binding name (hbindings file binding hbinding) hname).recalls hrecalls⟩

/-- What a hook may do to the files of a session: queue some. -/
structure Work.Extends (before after : Work) : Prop extends before.Recalls after where
  files : after.program.files = before.program.files
  failed : after.program.failed = before.program.failed

theorem Work.Extends.refl (work : Work) : work.Extends work := ⟨.refl work, rfl, rfl⟩

theorem Work.Extends.trans {first second third : Work} (h : first.Extends second)
    (h' : second.Extends third) : first.Extends third :=
  ⟨h.toRecalls.trans h'.toRecalls, h'.files.trans h.files, h'.failed.trans h.failed⟩

/-! ### Steps -/

/-- A step leaves all accounted for, and what it answers is good. -/
structure Leads {α : Type} (config : Config) (work : Work) (step : Resolve α)
    (good : α → Work → Prop) : Prop where
  accounted : Accounted config (step.runOn work).2
  recalls : work.Extends (step.runOn work).2
  good : ∀ answer, (step.runOn work).1 = .ok answer → good answer (step.runOn work).2

/-- However a step ends, all is accounted for if it was before. -/
def Upholds {α : Type} (config : Config) (step : Resolve α) : Prop :=
  ∀ work, Accounted config work → Leads config work step fun _ _ => True

variable {α β : Type} {config : Config} {mail : Mail} {work : Work}

theorem Leads.bind {step : Resolve α} {rest : α → Resolve β} {good : α → Work → Prop}
    {last : β → Work → Prop} (h : Leads config work step good)
    (hrest : ∀ answer next, Accounted config next → work.Extends next → good answer next →
      Leads config next (rest answer) last) : Leads config work (step >>= rest) last := by
  cases hrun : step.runOn work with
  | mk outcome next =>
    have hnext : (step.runOn work).2 = next := by rw [hrun]
    cases outcome with
    | ok answer =>
      have hgood := h.good answer (by rw [hrun])
      rw [hnext] at hgood
      obtain ⟨haccounted, hrecalls, hlast⟩ :=
        hrest answer next (hnext ▸ h.accounted) (hnext ▸ h.recalls) hgood
      have hbind : (step >>= rest).runOn work = (rest answer).runOn next := runOn_bind hrun
      refine ⟨?_, ?_, ?_⟩ <;> rw [hbind]
      · exact haccounted
      · exact (hnext ▸ h.recalls).trans hrecalls
      · exact hlast
    | error error =>
      have hbind : (step >>= rest).runOn work = (.error error, next) := run_bind_error hrun
      refine ⟨?_, ?_, ?_⟩ <;> rw [hbind]
      · exact hnext ▸ h.accounted
      · exact hnext ▸ h.recalls
      · rintro answer ⟨⟩

theorem Leads.pure {answer : α} {good : α → Work → Prop} (h : Accounted config work)
    (hgood : good answer work) : Leads config work (Pure.pure answer) good := by
  refine ⟨h, .refl work, ?_⟩
  rintro _ ⟨⟩
  exact hgood

/-- A part that only looks. -/
theorem Leads.reads {step : Resolve α} {rest : α → Resolve β} {good : β → Work → Prop} {answer : α}
    (hread : step.runOn work = (.ok answer, work)) (h : Leads config work (rest answer) good) :
    Leads config work (step >>= rest) good := by
  have hbind : (step >>= rest).runOn work = (rest answer).runOn work := runOn_bind hread
  constructor
  · rw [hbind]
    exact h.accounted
  · rw [hbind]
    exact h.recalls
  · rw [hbind]
    exact h.good

theorem Leads.state {rest : State → Resolve β} {good : β → Work → Prop}
    (h : Leads config work (rest work.state) good) :
    Leads config work (Resolve.state >>= rest) good :=
  .reads rfl h

theorem Upholds.bind {step : Resolve α} {rest : α → Resolve β} (h : Upholds config step)
    (hrest : ∀ answer, Upholds config (rest answer)) : Upholds config (step >>= rest) :=
  fun work hwork => (h work hwork).bind fun answer next hnext _ _ => hrest answer next hnext

theorem Upholds.get {rest : Work → Resolve β} (h : ∀ work, Upholds config (rest work)) :
    Upholds config (MonadState.get >>= rest) :=
  fun work hwork => .reads rfl (h work work hwork)

theorem Upholds.state {rest : State → Resolve β} (h : ∀ state, Upholds config (rest state)) :
    Upholds config (Resolve.state >>= rest) :=
  fun work hwork => .state (h work.state work hwork)

theorem Upholds.pure (answer : α) : Upholds config (Pure.pure answer) :=
  fun _ hwork => .pure hwork trivial

theorem composes_upholds (config : Config) : Composes fun _ step => Upholds config step :=
  ⟨fun h hrest => h.bind hrest, fun h => .get h, fun answer => .pure answer⟩

theorem Upholds.forM {items : List α} {each : α → Resolve Unit}
    (h : ∀ item, Upholds config (each item)) : Upholds config (items.forM each) :=
  (composes_upholds config).forM h

/-- The store is not on record. -/
theorem Upholds.onStore (operation : Store → Except StoreError α × Store) :
    Upholds config (Resolve.onStore operation) := by
  intro work hwork
  have hrecalls : work.Extends (work.withStore (operation work.program.store).2) :=
    ⟨⟨fun _ => id, fun _ => id, fun _ => id, fun _ => id⟩, rfl, rfl⟩
  refine ⟨?_, hrecalls, fun _ _ => trivial⟩
  exact hwork.recalls hrecalls.toRecalls hwork.table hwork.reported fun _ _ => id

theorem Upholds.growing (operation : Store → α × Store) :
    Upholds config (Resolve.growing operation) := .onStore _

/-- A change of the memory that stores no binding, and warns about no capability unless it reports
    it. -/
structure Quiet (change : State → State) : Prop where
  bindings : ∀ state, (change state).bindings = state.bindings
  warned : ∀ state, (change state).warnedCapabilities = state.warnedCapabilities
  diagnostics : ∀ state, ∃ more, (change state).diagnostics = state.diagnostics ++ more

theorem Upholds.remember {change : State → State} (h : Quiet change) :
    Upholds config (Resolve.remember change) := by
  intro work hwork
  have hwarned : ∀ name, (change work.state).warnedAbout name = work.state.warnedAbout name := by
    intro name
    unfold State.warnedAbout
    rw [h.warned]
  have hreported : ∀ name, work.state.Reported name → (change work.state).Reported name := by
    rintro name ⟨diagnostic, hmem, hname⟩
    obtain ⟨more, hmore⟩ := h.diagnostics work.state
    refine ⟨diagnostic, ?_, hname⟩
    rw [hmore]
    exact List.mem_append_left _ hmem
  have hrecalls : work.Extends { work with state := change work.state } :=
    ⟨⟨fun name hname => (hwarned name).trans hname, hreported, fun _ => id, fun _ => id⟩, rfl, rfl⟩
  refine ⟨?_, hrecalls, fun _ _ => trivial⟩
  refine hwork.recalls hrecalls.toRecalls hwork.table ?_ ?_
  · intro name hname
    exact hreported name (hwork.reported name ((hwarned name).symm.trans hname))
  · intro file binding hbinding
    have hbinding' : (change work.state).bindings.get? file = some binding := hbinding
    rw [h.bindings] at hbinding'
    exact hbinding'

theorem quiet_warnFile (file : String) (warning : Warning) : Quiet (·.warnFile file warning) := by
  refine ⟨?_, ?_, ?_⟩ <;> intro state <;> unfold State.warnFile <;> dsimp only <;> split
  · rfl
  · rfl
  · rfl
  · rfl
  · exact ⟨_, rfl⟩
  · exact ⟨[], (List.append_nil _).symm⟩

theorem quiet_register (name : String) (type : TypeId) (origin : Option String) :
    Quiet (·.register name type origin) :=
  ⟨fun _ => rfl, fun _ => rfl, fun _ => ⟨[], (List.append_nil _).symm⟩⟩

theorem quiet_setImportsObject (file : String) (object : TypeId) :
    Quiet (·.setImportsObject file object) :=
  ⟨fun _ => rfl, fun _ => rfl, fun _ => ⟨[], (List.append_nil _).symm⟩⟩

/-! ### Asking for providers -/

/-- No diagnostic is lost, and whatever is warned about anew is reported. -/
structure State.Warns (before after : State) : Prop where
  kept : ∀ name, before.Reported name → after.Reported name
  added : ∀ name, after.warnedAbout name = true →
    before.warnedAbout name = true ∨ after.Reported name

theorem State.Warns.trans {first second third : State} (h : first.Warns second)
    (h' : second.Warns third) : first.Warns third := by
  refine ⟨fun name hname => h'.kept name (h.kept name hname), ?_⟩
  intro name hname
  rcases h'.added name hname with hbefore | hreported
  · rcases h.added name hbefore with hfirst | hreported
    · exact Or.inl hfirst
    · exact Or.inr (h'.kept name hreported)
  · exact Or.inr hreported

theorem reported_report {state : State} {name : String} (file : Option String) (warning : Warning)
    (h : state.Reported name) : (state.report file warning).Reported name := by
  obtain ⟨diagnostic, hmem, hname⟩ := h
  exact ⟨diagnostic, List.mem_append_left _ hmem, hname⟩

theorem warns_warnCapability (state : State) (file : String) (warning : Warning) :
    state.Warns (state.warnCapability file warning) := by
  unfold State.warnCapability
  cases hcapability : warning.capability? with
  | none => exact ⟨fun name => reported_report (some file) warning, fun name => Or.inl⟩
  | some name =>
    dsimp only
    by_cases hcontains : state.warnedCapabilities.contains name = true
    · rw [WarnedSet.first_of_contains hcontains]
      exact ⟨fun _ => id, fun _ => Or.inl⟩
    · have hfirst : state.warnedCapabilities.first name =
          (true, ⟨state.warnedCapabilities.names ++ [name]⟩) := if_neg hcontains
      rw [hfirst]
      refine ⟨fun other hother => ?_, fun other hother => ?_⟩
      · exact reported_report (some file) warning hother
      · simp only [if_true, State.warnedAbout, State.report, WarnedSet.contains,
          List.contains_eq_mem, List.mem_append, List.mem_singleton, decide_eq_true_eq]
          at hother ⊢
        rcases hother with hold | rfl
        · exact Or.inl hold
        · exact Or.inr ⟨.of (some file) warning, by simp, hcapability⟩

theorem warns_reportTableUnavailable (state : State) (file : String) :
    state.Warns (state.reportTableUnavailable file) := by
  unfold State.reportTableUnavailable
  split
  · exact ⟨fun _ => id, fun _ => Or.inl⟩
  · exact ⟨fun _ => reported_report _ _, fun _ => Or.inl⟩

theorem warns_schedule (config : Config) (mail : Mail) (name consumer : String) (work : Work) :
    work.state.Warns (schedule config mail name consumer work).2.state := by
  unfold schedule
  dsimp only
  split
  · exact warns_warnCapability work.state consumer (.unresolved name)
  · exact (warns_reportTableUnavailable work.state consumer).trans
      (warns_warnCapability (work.state.reportTableUnavailable consumer) consumer
        (.unresolved name))
  · split
    · exact warns_warnCapability work.state consumer (.outsideModulesDir name config.modulesDir)
    · split <;> exact ⟨fun _ => id, fun _ => Or.inl⟩

theorem Work.Asks.extends {wanted : PendingFile → Prop} {before after : Work}
    (h : before.Asks mail wanted after) (htable : before.table.Waits)
    (hwarns : before.state.Warns after.state) : before.Extends after := by
  obtain ⟨more, -, hmore⟩ := h.program
  refine ⟨⟨h.state.capability, hwarns.kept, ?_, ?_⟩, by rw [hmore], by rw [hmore]⟩
  · intro paths hpaths
    rcases h.table with hsame | hpolled
    · rw [hsame]
      exact hpaths
    · rw [hpolled, htable.poll_of_paths? mail hpaths]
      exact hpaths
  · intro path hknown
    rw [hmore]
    rcases hknown with hloaded | hqueued | hfailed
    · exact Or.inl hloaded
    · right
      left
      simp only [Program.isQueued, List.any_append] at hqueued ⊢
      rw [hqueued]
      rfl
    · exact Or.inr (Or.inr hfailed)

/-- Asking for a capability puts it on record why it is missing. -/
theorem Accounted.schedule (h : Accounted config work) (mail : Mail) (name file : String) :
    Accounted config (schedule config mail name file work).2 ∧
      work.Extends (Resolver.schedule config mail name file work).2 ∧
      Explained config (Resolver.schedule config mail name file work).2 file name := by
  have hasks : work.Asks mail (fun _ => True) (Resolver.schedule config mail name file work).2 :=
    asks_schedule fun _ _ _ _ => trivial
  have hwarns := warns_schedule config mail name file work
  have hextends := hasks.extends h.table hwarns
  have hhandled := handled_schedule config mail name file work
  generalize (Resolver.schedule config mail name file work).2 = next at *
  have hreported : ∀ name, next.state.warnedAbout name = true → next.state.Reported name := by
    intro other hother
    rcases hwarns.added other hother with hold | hnew
    · exact hwarns.kept other (h.reported other hold)
    · exact hnew
  have htable : next.table.Waits := by
    rcases hasks.table with hsame | hpolled
    · rw [hsame]
      exact h.table
    · rw [hpolled]
      exact h.table.poll mail
  have haccounted : Accounted config next := by
    refine h.recalls hextends.toRecalls htable hreported ?_
    intro other binding hbinding
    unfold State.binding? at hbinding ⊢
    rw [hasks.state.same] at hbinding
    exact hbinding
  refine ⟨haccounted, hextends, ?_⟩
  cases hresolve : next.table.resolve name with
  | missing => exact Or.inl ⟨hhandled.missing hresolve, hreported name (hhandled.missing hresolve)⟩
  | notYetAvailable =>
    have hwarned := (hhandled.unavailable hresolve).2
    exact Or.inl ⟨hwarned, hreported name hwarned⟩
  | found relative =>
    cases hpath : config.modulePath? file relative with
    | none =>
      have hwarned := hhandled.outside relative hresolve hpath
      exact Or.inl ⟨hwarned, hreported name hwarned⟩
    | some path =>
      obtain ⟨paths, hpaths, hrelative⟩ := Host.PathTable.resolve_eq_found hresolve
      have hknown := hhandled.known relative path hresolve hpath
      obtain ⟨root, hroot, rfl⟩ := Option.map_eq_some_iff.1 hpath
      exact Or.inr ⟨paths, relative, root, hpaths, hrelative, hroot, hknown⟩

/-! ### Binding -/

theorem leads_resolveName (h : Accounted config work) (file name : String) :
    Leads config work (resolveName config mail file name) fun type next =>
      type = none → Explained config next file name := by
  refine .state ?_
  split
  · exact .pure h fun hnone => by cases hnone
  · obtain ⟨haccounted, hextends, hexplained⟩ := h.schedule mail name file
    have hmodify : Leads config work
        (modify fun work => (schedule config mail name file work).2)
        fun _ next => Explained config next file name :=
      ⟨haccounted, hextends, fun _ _ => hexplained⟩
    exact hmodify.bind fun _ next hnext _ hgood => .state (.pure hnext fun _ => hgood)

theorem upholds_addType (value : ValueId) (type : TypeId) :
    Upholds config (Resolve.addType value type) :=
  (Upholds.onStore _).bind fun _ => .pure ()

theorem upholds_removeType (value : ValueId) (type : TypeId) :
    Upholds config (Resolve.removeType value type) :=
  (Upholds.onStore _).bind fun _ => .pure ()

theorem upholds_replaceType (old new : Option TypeId) (target : ValueId) :
    Upholds config (replaceType old new target) := by
  cases old with
  | none =>
    cases new with
    | none => exact (Upholds.pure ()).bind fun _ => .pure ()
    | some new => exact (Upholds.pure ()).bind fun _ => upholds_addType target new
  | some old =>
    cases new with
    | none => exact (upholds_removeType target old).bind fun _ => .pure ()
    | some new => exact (upholds_removeType target old).bind fun _ => upholds_addType target new

theorem upholds_attach (site : ConsumerSite) (object : TypeId) (name : String)
    (type : Option TypeId) : Upholds config (attach site object name type) := by
  refine .state fun state => ?_
  dsimp only
  split
  · exact .pure ()
  · exact (Upholds.onStore _).bind fun direct => (Upholds.onStore _).bind fun member =>
      .forM fun value => upholds_replaceType _ _ value

theorem upholds_importsObject (file : String) : Upholds config (importsObject file) := by
  refine .state fun state => ?_
  split
  · exact .pure _
  · exact (Upholds.growing _).bind fun object =>
      (Upholds.remember (quiet_setImportsObject file object)).bind fun _ => .pure object

theorem mem_putAmong {α : Type} {key : String} {value : α} {entry : String × α}
    {entries : List (String × α)} (h : entry ∈ Keyed.putAmong key value entries) :
    entry ∈ entries ∨ entry = (key, value) := by
  induction entries with
  | nil => exact Or.inr (List.mem_singleton.1 h)
  | cons first rest ih =>
    unfold Keyed.putAmong at h
    split at h
    · rcases List.mem_cons.1 h with hnew | hrest
      · exact Or.inr hnew
      · exact Or.inl (List.mem_cons_of_mem _ hrest)
    · rcases List.mem_cons.1 h with rfl | hrest
      · exact Or.inl List.mem_cons_self
      · rcases ih hrest with hold | hnew
        · exact Or.inl (List.mem_cons_of_mem _ hold)
        · exact Or.inr hnew

theorem mem_unresolved_bind {binding : ImportsBinding} {name other : String}
    {type : Option TypeId} (h : other ∈ (binding.bind name type).unresolved) :
    other ∈ binding.unresolved ∨ other = name ∧ type = none := by
  simp only [ImportsBinding.unresolved, ImportsBinding.bind, Keyed.put, List.mem_map,
    List.mem_filter, Option.isNone_iff_eq_none] at h ⊢
  obtain ⟨entry, ⟨hentry, hnone⟩, rfl⟩ := h
  rcases mem_putAmong hentry with hold | rfl
  · exact Or.inl ⟨entry, ⟨hold, hnone⟩, rfl⟩
  · exact Or.inr ⟨rfl, hnone⟩

/-- All names of a binding that have no type are explained. -/
def BindingExplained (config : Config) (work : Work) (binding : ImportsBinding) : Prop :=
  ∀ name ∈ binding.unresolved, Explained config work binding.file name

theorem leads_bindNames (h : Accounted config work) (site : ConsumerSite) (object : TypeId)
    {binding : ImportsBinding} (hfile : binding.file = site.file)
    (hbinding : BindingExplained config work binding) (names : List String) :
    Leads config work (bindNames config mail site object binding names)
      fun bound next => BindingExplained config next bound := by
  induction names generalizing work binding with
  | nil => exact .pure h hbinding
  | cons name rest ih =>
    refine (leads_resolveName h site.file name).bind fun type next hnext hextends hgood => ?_
    refine (upholds_attach site object name type next hnext).bind fun _ last hlast hextends' _ => ?_
    refine ih hlast hfile ?_
    intro other hother
    rcases mem_unresolved_bind hother with hold | ⟨rfl, hnone⟩
    · exact (hbinding other hold).recalls (hextends.trans hextends').toRecalls
    · have hexplained := (hgood hnone).recalls hextends'.toRecalls
      rw [← hfile] at hexplained
      exact hexplained

theorem leads_bindEntry (h : Accounted config work) (site : ConsumerSite) (names : List String) :
    Leads config work (bindEntry config mail site names)
      fun bound next => BindingExplained config next bound := by
  refine (upholds_importsObject site.file work h).bind fun object first hfirst _ _ => ?_
  refine (upholds_addType site.imports object first hfirst).bind fun _ second hsecond _ _ => ?_
  refine (leads_bindNames hsecond site object rfl ?_ names).bind
    fun binding third hthird _ hbinding => ?_
  · intro name hname
    cases hname
  · refine (Upholds.onStore _ third hthird).bind fun _ last hlast hextends _ => ?_
    exact .pure hlast fun name hname => (hbinding name hname).recalls hextends.toRecalls

theorem leads_storeBinding (h : Accounted config work) {binding : ImportsBinding}
    (hbinding : BindingExplained config work binding) :
    Leads config work (Resolve.remember (·.storeBinding binding)) fun _ _ => True := by
  have hextends : work.Extends { work with state := work.state.storeBinding binding } :=
    ⟨⟨fun _ => id, fun _ => id, fun _ => id, fun _ => id⟩, rfl, rfl⟩
  refine ⟨⟨h.table, h.reported, ?_⟩, hextends, fun _ _ => trivial⟩
  intro file found name hfound hname
  have hget : (work.state.bindings.put binding.file binding).get? file = some found := hfound
  rw [Keyed.get?_put] at hget
  split at hget
  · rename_i heq
    cases hget
    rw [heq]
    exact (hbinding name hname).recalls hextends.toRecalls
  · exact (h.explained file found name hget hname).recalls hextends.toRecalls

theorem upholds_bindSite (names : List String) (site : ConsumerSite) :
    Upholds config (bindSite config mail names site) :=
  fun _ h => (leads_bindEntry h site names).bind fun _ _ hnext _ hbinding =>
    leads_storeBinding hnext hbinding

theorem upholds_bindFound (file : String) (names : List String) (entry : Entry) :
    Upholds config (bindFound config mail file names entry) := by
  refine .get fun work => ?_
  split
  · exact .pure ()
  · exact upholds_bindSite names _

theorem upholds_bindFile (file : String) : Upholds config (bindFile config mail file) := by
  refine .get fun work => ?_
  split
  · exact .pure ()
  · dsimp only
    split
    · exact .pure ()
    · split
      · exact .remember (quiet_warnFile file _)
      · exact .forM fun entry => upholds_bindFound file _ entry

theorem Accounted.withOrigin (h : Accounted config work) (origin : Option String) :
    Accounted config { work with state := { work.state with currentOrigin := origin } } ∧
      work.Extends { work with state := { work.state with currentOrigin := origin } } :=
  ⟨⟨h.table, h.reported, h.explained⟩,
    ⟨⟨fun _ => id, fun _ => id, fun _ => id, fun _ => id⟩, rfl, rfl⟩⟩

theorem Accounted.bindFiles (h : Accounted config work) (mail : Mail) (files : List String) :
    Accounted config (bindFiles config mail files work) ∧
      work.Extends (Resolver.bindFiles config mail files work) := by
  induction files generalizing work with
  | nil => exact ⟨h, .refl work⟩
  | cons file rest ih =>
    obtain ⟨hstart, hextends⟩ := h.withOrigin (some file)
    have hbound : Leads config _ (bindFile config mail file) _ := upholds_bindFile file _ hstart
    obtain ⟨hlast, hextends'⟩ := ih hbound.accounted
    exact ⟨hlast, (hextends.trans hbound.recalls).trans hextends'⟩

/-- A pass over all consumers leaves all accounted for. -/
theorem Accounted.bindProgram (h : Accounted config work) (mail : Mail) :
    Accounted config (bindProgram config mail work) ∧
      work.Extends (Resolver.bindProgram config mail work) := by
  obtain ⟨hbound, hextends⟩ := h.bindFiles mail work.program.fileNames
  obtain ⟨hlast, hextends'⟩ := hbound.withOrigin none
  exact ⟨hlast, hextends.trans hextends'⟩

/-! ### Registering -/

theorem upholds_fillMember (object : TypeId) (member : Member) :
    Upholds config (fillMember object member) := by
  obtain ⟨name, type⟩ := member
  refine (Upholds.onStore _).bind fun place => ?_
  cases type with
  | none => exact .pure ()
  | some type => exact upholds_addType place type

theorem registers_upholds (config : Config) (file : String) :
    Registers (fun _ step => Upholds config step) file := by
  constructor
  · exact composes_upholds config
  · exact .growing _
  · exact upholds_fillMember
  · exact fun object doc => .growing _
  · exact fun name type => .remember (quiet_register name type (some file))
  · exact fun warning _ _ => .remember (quiet_warnFile file warning)

end Capabilities.Resolver
