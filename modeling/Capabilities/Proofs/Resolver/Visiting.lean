import Capabilities.Proofs.Resolver.Pass
import Capabilities.Proofs.Session.Serving

/-!
# What the resolver asks for and reports

Whatever state a session is in, registering what a file provides asks for nothing and reports no
capability, and a pass over all consumers asks for and reports only what a loaded consumer lacks:
it asks for the module that the path table names, and it reports a capability for which there is
none. Nothing is assumed of the store, and a step that is refused has done no more than its parts.
-/

namespace Capabilities.Resolver

open Host Script Session Capabilities.Types Capabilities.Module

/-! ### What is lacked -/

/-- A loaded consumer declares a capability that nobody has registered. -/
def Lacks (config : Config) (work : Work) (file name : String) : Prop :=
  ∃ source names, work.program.file? file = some source ∧
    (declaration .consumes config.entryNames source.root).names? = some names ∧
    sites config work.program file source.root ≠ [] ∧ name ∈ names ∧
    work.state.registry.lookup? name = none

/-- The module that the path table names for what a consumer lacks. -/
def Sought (config : Config) (mail : Mail) (work : Work) (pending : PendingFile) : Prop :=
  ∃ file name relative, Lacks config work file name ∧
    (work.table.poll mail).resolve name = .found relative ∧
    config.modulePath? file relative = some pending.path ∧ pending.text = none

/-- A consumer lacks a capability and there is no module to ask for. -/
def Missed (config : Config) (mail : Mail) (work : Work) (name : String) : Prop :=
  ∃ file, Lacks config work file name ∧
    ∀ relative, (work.table.poll mail).resolve name = .found relative →
      config.modulePath? file relative = none

theorem Lacks.congr {config : Config} {before after : Work} {file name : String}
    (h : Lacks config before file name)
    (hfiles : after.program.files = before.program.files)
    (hregistry : after.state.registry = before.state.registry) : Lacks config after file name := by
  obtain ⟨source, names, hfile, hnames, hsites, hname, hnone⟩ := h
  refine ⟨source, names, ?_, hnames, ?_, hname, ?_⟩
  · unfold Program.file?
    rw [hfiles]
    exact hfile
  · rw [sites_of_get? source.root (show after.program.files.get? file =
      before.program.files.get? file by rw [hfiles])]
    exact hsites
  · rw [hregistry]
    exact hnone

/-! ### Capabilities that are reported -/

/-- Of the capabilities only those that are `named` come to be reported. -/
structure State.Mentions (named : String → Prop) (before after : State) : Prop where
  warned : ∀ name, after.warnedAbout name = true → before.warnedAbout name = true ∨ named name
  reported : ∀ name, after.Reported name → before.Reported name ∨ named name

namespace State

variable {named : String → Prop} {first second third state : State}

theorem Mentions.of_same (named : String → Prop)
    (hwarned : second.warnedCapabilities = first.warnedCapabilities)
    (hdiagnostics : second.diagnostics = first.diagnostics) : first.Mentions named second := by
  constructor
  · intro name hname
    unfold warnedAbout at hname ⊢
    rw [hwarned] at hname
    exact Or.inl hname
  · intro name hname
    unfold Reported at hname ⊢
    rw [hdiagnostics] at hname
    exact Or.inl hname

theorem Mentions.trans (h : first.Mentions named second) (h' : second.Mentions named third) :
    first.Mentions named third :=
  ⟨fun name hname => (h'.warned name hname).elim (h.warned name) Or.inr,
    fun name hname => (h'.reported name hname).elim (h.reported name) Or.inr⟩

theorem Mentions.mono {other : String → Prop} (h : first.Mentions named second)
    (hother : ∀ name, named name → other name) : first.Mentions other second :=
  ⟨fun name hname => (h.warned name hname).imp id (hother name),
    fun name hname => (h.reported name hname).imp id (hother name)⟩

theorem mentions_report (state : State) (file : Option String) (warning : Warning) :
    state.Mentions (warning.capability? = some ·) (state.report file warning) := by
  refine ⟨fun name => Or.inl, ?_⟩
  rintro name ⟨diagnostic, hmem, hname⟩
  rcases List.mem_append.1 hmem with hold | hnew
  · exact Or.inl ⟨diagnostic, hold, hname⟩
  · rw [List.mem_singleton.1 hnew] at hname
    exact Or.inr hname

theorem mentions_warnCapability (state : State) (file : String) (warning : Warning) :
    state.Mentions (warning.capability? = some ·) (state.warnCapability file warning) := by
  unfold warnCapability
  cases hcapability : warning.capability? with
  | none =>
    have hreport := state.mentions_report (some file) warning
    rw [hcapability] at hreport
    exact hreport
  | some name =>
    have hadded : state.Mentions (some name = some ·)
        { state with warnedCapabilities := (state.warnedCapabilities.first name).2 } := by
      refine ⟨?_, fun other => Or.inl⟩
      intro other hother
      unfold warnedAbout WarnedSet.first at hother
      split at hother
      · exact Or.inl hother
      · simp only [WarnedSet.contains, List.contains_eq_mem, List.mem_append, List.mem_singleton,
          decide_eq_true_eq] at hother
        rcases hother with hold | rfl
        · left
          simpa [warnedAbout, WarnedSet.contains] using hold
        · exact Or.inr rfl
    dsimp only
    split
    · refine hadded.trans ?_
      rw [← hcapability]
      exact mentions_report _ (some file) warning
    · exact hadded

theorem mentions_warnFile (state : State) (file : String) {warning : Warning}
    (h : warning.capability? = none) (named : String → Prop) :
    state.Mentions named (state.warnFile file warning) := by
  have hadded : state.Mentions named { state with
      warnedFiles := (state.warnedFiles.first (file ++ ": " ++ warning.message)).2 } :=
    .of_same named rfl rfl
  unfold warnFile
  dsimp only
  split
  · refine hadded.trans ((mentions_report _ (some file) warning).mono ?_)
    intro name hname
    rw [h] at hname
    cases hname
  · exact hadded

theorem mentions_reportTableUnavailable (state : State) (file : String) (named : String → Prop) :
    state.Mentions named (state.reportTableUnavailable file) := by
  have hadded : state.Mentions named { state with tableReported := true } :=
    .of_same named rfl rfl
  unfold reportTableUnavailable
  split
  · exact .of_same named rfl rfl
  · refine hadded.trans ((mentions_report _ (some file) .pathTableUnavailable).mono ?_)
    rintro name ⟨⟩

end State

/-! ### What a step may come to -/

/-- Only `wanted` files are asked for, and of the capabilities only those `named` are reported. -/
structure Work.Serves (mail : Mail) (wanted : PendingFile → Prop) (named : String → Prop)
    (before after : Work) : Prop where
  program : before.program.Allows wanted after.program
  state : before.state.Mentions named after.state
  table : after.table = before.table ∨ after.table = before.table.poll mail

variable {α β : Type} {config : Config} {mail : Mail} {wanted : PendingFile → Prop}
  {named : String → Prop} {base work first second third : Work} {file name : String}

theorem Work.Serves.refl (mail : Mail) (wanted : PendingFile → Prop) (named : String → Prop)
    (work : Work) : work.Serves mail wanted named work :=
  ⟨.refl wanted work.program, .of_same named rfl rfl, Or.inl rfl⟩

theorem Work.Serves.trans (h : first.Serves mail wanted named second)
    (h' : second.Serves mail wanted named third) : first.Serves mail wanted named third := by
  refine ⟨h.program.trans h'.program, h.state.trans h'.state, ?_⟩
  rcases h'.table with htable' | htable'
  · rw [htable']
    exact h.table
  · rcases h.table with htable | htable
    · rw [htable', htable]
      exact Or.inr rfl
    · rw [htable', htable, poll_poll_table]
      exact Or.inr rfl

theorem Work.Serves.polled (h : first.Serves mail wanted named second) :
    second.table.poll mail = first.table.poll mail := by
  rcases h.table with htable | htable
  · rw [htable]
  · rw [htable, poll_poll_table]

theorem Work.Serves.write (mail : Mail) (wanted : PendingFile → Prop) (named : String → Prop)
    (work : Work) {store : Store} (h : work.program.store.HasPrimitives → store.HasPrimitives) :
    work.Serves mail wanted named (work.withStore store) :=
  ⟨.write wanted work.program h, .of_same named rfl rfl, Or.inl rfl⟩

theorem Work.Serves.note {state : State} (h : work.state.Mentions named state) (mail : Mail)
    (wanted : PendingFile → Prop) :
    work.Serves mail wanted named { work with state := state } :=
  ⟨.refl wanted work.program, h, Or.inl rfl⟩

/-- Besides, nothing is registered. -/
structure Work.Visits (config : Config) (mail : Mail) (base work : Work) : Prop
    extends base.Serves mail (Sought config mail base) (Missed config mail base) work where
  registry : work.state.registry = base.state.registry

theorem Work.Visits.refl (config : Config) (mail : Mail) (base : Work) :
    base.Visits config mail base :=
  ⟨.refl mail _ _ base, rfl⟩

theorem Work.Visits.next (h : base.Visits config mail first)
    (hserves : first.Serves mail (Sought config mail base) (Missed config mail base) second)
    (hregistry : second.state.registry = first.state.registry) :
    base.Visits config mail second :=
  ⟨h.toServes.trans hserves, hregistry.trans h.registry⟩

theorem Work.Visits.schedule (h : base.Visits config mail work)
    (hlacks : Lacks config base file name) :
    base.Visits config mail (schedule config mail name file work).2 := by
  have htable : work.table.poll mail = base.table ∨ work.table.poll mail = base.table.poll mail :=
    Or.inr h.polled
  have hmissed : (∀ relative, (base.table.poll mail).resolve name = .found relative →
      config.modulePath? file relative = none) → ∀ warning : Warning,
      warning.capability? = some name → ∀ other, warning.capability? = some other →
        Missed config mail base other := by
    intro hnone warning hname other hother
    rw [hname] at hother
    cases hother
    exact ⟨file, hlacks, hnone⟩
  have hwarn : ∀ (state : State) (warning : Warning),
      work.state.Mentions (Missed config mail base) state → state.registry = work.state.registry →
      (∀ relative, (base.table.poll mail).resolve name = .found relative →
        config.modulePath? file relative = none) → warning.capability? = some name →
      base.Visits config mail
        ⟨work.program, state.warnCapability file warning, work.table.poll mail⟩ := by
    intro state warning hstate hregistry hnone hname
    have hmentions := (state.mentions_warnCapability file warning).mono
      (hmissed hnone warning hname)
    refine ⟨⟨h.program, h.state.trans (hstate.trans hmentions), htable⟩, ?_⟩
    have hsame := congrArg State.registry (reports_warnCapability state file warning).same
    exact hsame.trans (hregistry.trans h.registry)
  unfold Resolver.schedule
  dsimp only
  split
  · rename_i hresolve
    rw [h.polled] at hresolve
    refine hwarn work.state _ (.of_same _ rfl rfl) rfl ?_ rfl
    intro relative hfound
    rw [hresolve] at hfound
    cases hfound
  · rename_i hresolve
    rw [h.polled] at hresolve
    refine hwarn _ _ (work.state.mentions_reportTableUnavailable file _) ?_ ?_ rfl
    · have hsame := congrArg State.registry (reports_tableUnavailable work.state file).same
      exact hsame
    · intro relative hfound
      rw [hresolve] at hfound
      cases hfound
  · rename_i relative hresolve
    rw [h.polled] at hresolve
    split
    · rename_i hpath
      refine hwarn work.state _ (.of_same _ rfl rfl) rfl ?_ rfl
      intro other hother
      rw [hresolve] at hother
      cases hother
      exact hpath
    · rename_i path hpath
      have hask : base.Visits config mail ⟨(work.program.addFile path none
          work.state.currentOrigin).2, work.state, work.table.poll mail⟩ :=
        ⟨⟨h.program.trans (.ask work.program ⟨file, name, relative, hlacks, hresolve, hpath, rfl⟩),
          h.state, htable⟩, h.registry⟩
      split
      · exact hask
      · exact hask

/-! ### Steps -/

/-- However a step ends, the work goes from one that is related to `base` to another. -/
def Carries (related : Work → Prop) (step : Resolve α) : Prop :=
  ∀ work, related work → related (step.runOn work).2

theorem composes_carries (related : Work → Prop) :
    Composes fun _ step => Carries related step := by
  constructor
  · intro α β step rest h hrest work hwork
    have hnext := h work hwork
    cases hrun : step.runOn work with
    | mk outcome next =>
      rw [hrun] at hnext
      cases outcome with
      | ok answer =>
        rw [runOn_bind hrun]
        exact hrest answer next hnext
      | error error =>
        have hbind : (step >>= rest).runOn work = (.error error, next) := run_bind_error hrun
        rw [hbind]
        exact hnext
  · intro β rest h work hwork
    have hget : (MonadState.get : Resolve Work).runOn work = (.ok work, work) := rfl
    rw [runOn_bind hget]
    exact h work work hwork
  · intro α answer work hwork
    exact hwork

/-- A step that only writes to the store. -/
theorem Carries.onStore {related : Work → Prop} {operation : Store → Except StoreError α × Store}
    (hrelated : ∀ work store, related work →
      (work.program.store.HasPrimitives → store.HasPrimitives) → related (work.withStore store))
    (h : ∀ store : Store, store.HasPrimitives → (operation store).2.HasPrimitives) :
    Carries related (Resolve.onStore operation) := by
  intro work hwork
  rw [run_onStore]
  exact hrelated work _ hwork (h work.program.store)

/-! ### Registering -/

/-- What is registered for a file asks for nothing and reports no capability. -/
theorem registers_carries (mail : Mail) (wanted : PendingFile → Prop) (named : String → Prop)
    (base : Work) (file : String) :
    Registers (fun _ step => Carries (base.Serves mail wanted named) step) file := by
  have hwrite : ∀ work store, base.Serves mail wanted named work →
      (work.program.store.HasPrimitives → store.HasPrimitives) →
      base.Serves mail wanted named (work.withStore store) :=
    fun work store hwork hstore => hwork.trans (.write mail wanted named work hstore)
  have hcomposes := composes_carries (base.Serves mail wanted named)
  have hadd : ∀ value type,
      Carries (base.Serves mail wanted named) (Resolve.addType value type) := fun value type =>
    hcomposes.bind (.onStore hwrite fun _ hstore => hstore.addType value type) fun _ =>
      hcomposes.pure ()
  refine ⟨hcomposes, .onStore hwrite fun _ hstore => hstore.pushType _, ?_, ?_, ?_, ?_⟩
  · rintro object ⟨name, type⟩
    refine hcomposes.bind (.onStore hwrite fun _ hstore => hstore.ensureMember object name)
      fun place => ?_
    cases type with
    | none => exact hcomposes.pure ()
    | some type => exact hadd place type
  · exact fun object doc => .onStore hwrite fun _ hstore => hstore.setDoc object doc
  · intro name type work hwork
    have hnote : work.state.Mentions named (work.state.register name type (some file)) :=
      .of_same named rfl rfl
    exact hwork.trans (.note hnote mail wanted)
  · exact fun warning hwarning _ work hwork =>
      hwork.trans (.note (work.state.mentions_warnFile file hwarning named) mail wanted)

theorem serves_synthesize (config : Config) (mail : Mail) (wanted : PendingFile → Prop)
    (named : String → Prop) (file : String) (work : Work) :
    work.Serves mail wanted named ((synthesize config file).runOn work).2 :=
  (registers_carries mail wanted named work file).synthesize config work
    (.refl mail wanted named work)

/-! ### Binding -/

/-- What the steps keep that binding the consumers of a file is made of. A file is asked for only
    for what the consumers lack at that moment. -/
structure Binds (config : Config) (mail : Mail) (file : String) (related : Work → Prop) : Prop where
  write : ∀ work store, related work →
    (work.program.store.HasPrimitives → store.HasPrimitives) → related (work.withStore store)
  object : ∀ work object, related work →
    related { work with state := work.state.setImportsObject file object }
  store : ∀ work binding, related work →
    related { work with state := work.state.storeBinding binding }
  warn : ∀ work, related work → related { work with
    state := work.state.warnFile file (.consumesUndeclared config.consumerEntry) }
  schedule : ∀ work name, related work → Lacks config work file name →
    related (schedule config mail name file work).2

namespace Binds

variable {related : Work → Prop} {files : Keyed LoadedFile}

/-- The loaded files stay what they are. -/
theorem fixed (h : Binds config mail file related) (files : Keyed LoadedFile) :
    Binds config mail file fun work => related work ∧ work.program.files = files := by
  refine ⟨?_, ?_, ?_, ?_, ?_⟩
  · exact fun work store hwork hstore => ⟨h.write work store hwork.1 hstore, hwork.2⟩
  · exact fun work object hwork => ⟨h.object work object hwork.1, hwork.2⟩
  · exact fun work binding hwork => ⟨h.store work binding hwork.1, hwork.2⟩
  · exact fun work hwork => ⟨h.warn work hwork.1, hwork.2⟩
  · intro work name hwork hlacks
    have hasks : work.Asks mail (fun _ => True) (Resolver.schedule config mail name file work).2 :=
      asks_schedule fun _ _ _ _ => trivial
    exact ⟨h.schedule work name hwork.1 hlacks, hasks.files.trans hwork.2⟩

variable (h : Binds config mail file related)

include h

theorem onStore {operation : Store → Except StoreError α × Store}
    (hoperation : ∀ store : Store, store.HasPrimitives → (operation store).2.HasPrimitives) :
    Carries related (Resolve.onStore operation) :=
  .onStore h.write hoperation

theorem addType (value : ValueId) (type : TypeId) :
    Carries related (Resolve.addType value type) :=
  (composes_carries related).bind (h.onStore fun _ hstore => hstore.addType value type) fun _ =>
    (composes_carries related).pure ()

theorem replaceType (old new : Option TypeId) (target : ValueId) :
    Carries related (replaceType old new target) := by
  have hcomposes := composes_carries related
  have hremove : ∀ old, Carries related (Resolve.removeType target old) := fun old =>
    hcomposes.bind (h.onStore fun _ hstore => hstore.removeType target old) fun _ =>
      hcomposes.pure ()
  cases old with
  | none =>
    cases new with
    | none => exact hcomposes.pure ()
    | some new => exact h.addType target new
  | some old =>
    cases new with
    | none => exact hcomposes.bind (hremove old) fun _ => hcomposes.pure ()
    | some new => exact hcomposes.bind (hremove old) fun _ => h.addType target new

theorem attach (site : ConsumerSite) (object : TypeId) (name : String) (type : Option TypeId) :
    Carries related (attach site object name type) := by
  have hcomposes := composes_carries related
  refine hcomposes.bind (hcomposes.get fun work => hcomposes.pure _) fun state => ?_
  dsimp only
  split
  · exact hcomposes.pure ()
  · refine hcomposes.bind (h.onStore fun _ hstore => hstore.valueMember _ _) fun direct => ?_
    refine hcomposes.bind (h.onStore fun _ hstore => hstore.ensureMember _ _) fun member => ?_
    exact hcomposes.forM fun value => h.replaceType _ _ value

theorem importsObject : Carries related (importsObject file) := by
  have hcomposes := composes_carries related
  refine hcomposes.bind (hcomposes.get fun work => hcomposes.pure _) fun state => ?_
  split
  · exact hcomposes.pure _
  · refine hcomposes.bind (h.onStore fun _ hstore => hstore.pushType _) fun object => ?_
    exact hcomposes.bind (fun work => h.object work object) fun _ => hcomposes.pure object

theorem resolveName (hlacks : ∀ work : Work, related work →
      work.state.registry.lookup? name = none → Lacks config work file name) :
    Carries related (resolveName config mail file name) := by
  intro work hwork
  have hstate : (Resolve.state : Resolve State).runOn work = (.ok work.state, work) := rfl
  unfold Resolver.resolveName
  rw [runOn_bind hstate]
  split
  · exact hwork
  · rename_i hnone
    exact h.schedule work name hwork (hlacks work hwork hnone)

theorem bindNames (site : ConsumerSite) (object : TypeId) (binding : ImportsBinding)
    {names : List String} (hsite : site.file = file)
    (hlacks : ∀ name ∈ names, ∀ work : Work, related work →
      work.state.registry.lookup? name = none → Lacks config work file name) :
    Carries related (bindNames config mail site object binding names) := by
  have hcomposes := composes_carries related
  induction names generalizing binding with
  | nil => exact hcomposes.pure binding
  | cons name rest ih =>
    have hname : Carries related (Resolver.resolveName config mail site.file name) := by
      rw [hsite]
      exact h.resolveName (hlacks name List.mem_cons_self)
    refine hcomposes.bind hname fun type => ?_
    refine hcomposes.bind (h.attach site object name type) fun _ => ?_
    exact ih _ fun other hother => hlacks other (List.mem_cons_of_mem _ hother)

theorem bindSite (site : ConsumerSite) {names : List String} (hsite : site.file = file)
    (hlacks : ∀ name ∈ names, ∀ work : Work, related work →
      work.state.registry.lookup? name = none → Lacks config work file name) :
    Carries related (bindSite config mail names site) := by
  have hcomposes := composes_carries related
  have hobject : Carries related (Resolver.importsObject site.file) := by
    rw [hsite]
    exact h.importsObject
  have hentry : Carries related (bindEntry config mail site names) := by
    refine hcomposes.bind hobject fun object => ?_
    refine hcomposes.bind (h.addType site.imports object) fun _ => ?_
    refine hcomposes.bind (h.bindNames site object _ hsite hlacks) fun binding => ?_
    refine hcomposes.bind ?_ fun _ => hcomposes.pure binding
    exact h.onStore fun _ hstore => hstore.setEnumeration _ _
  exact hcomposes.bind hentry fun binding work => h.store work binding

/-- Binding the consumers of a file does what all its steps do. -/
theorem bindFile : Carries related (bindFile config mail file) := by
  intro work hwork
  have hget : (MonadState.get : Resolve Work).runOn work = (.ok work, work) := rfl
  unfold Resolver.bindFile
  rw [runOn_bind hget]
  split
  · exact hwork
  rename_i source hsource
  dsimp only
  split
  · exact hwork
  split
  · exact h.warn work hwork
  · rename_i names hnames
    have hfixed := h.fixed work.program.files
    have hcomposes := composes_carries fun next : Work =>
      related next ∧ next.program.files = work.program.files
    refine (hcomposes.forM_mem ?_ work ⟨hwork, rfl⟩).1
    intro entry hentry next hnext
    unfold bindFound
    rw [runOn_bind (rfl : (MonadState.get : Resolve Work).runOn next = (.ok next, next))]
    split
    · exact hnext
    · rename_i site hlocate
      refine hfixed.bindSite site (locate?_eq_some hlocate).1 ?_ next hnext
      rintro name hname later ⟨-, hfiles⟩ hnone
      rw [locate?_of_get? (show next.program.files.get? file = later.program.files.get? file by
        rw [hnext.2, hfiles])] at hlocate
      have hsites : sites config later.program file source.root ≠ [] :=
        List.ne_nil_of_mem (List.mem_filterMap.2 ⟨entry, hentry, hlocate⟩)
      refine ⟨source, names, ?_, hnames, hsites, hname, hnone⟩
      rw [← hsource]
      unfold Program.file?
      rw [hfiles]

end Binds

theorem binds_visits (file : String) :
    Binds config mail file (base.Visits config mail) := by
  have hnote : ∀ {work : Work} {state : State}, base.Visits config mail work →
      work.state.Mentions (Missed config mail base) state →
      state.registry = work.state.registry → base.Visits config mail { work with state := state } :=
    fun hwork hmentions hregistry => hwork.next (.note hmentions mail _) hregistry
  refine ⟨?_, ?_, ?_, ?_, ?_⟩
  · exact fun work store hwork hstore => hwork.next (.write mail _ _ work hstore) rfl
  · exact fun work object hwork => hnote hwork (.of_same _ rfl rfl) rfl
  · exact fun work binding hwork => hnote hwork (.of_same _ rfl rfl) rfl
  · intro work hwork
    have hquiet : (Warning.consumesUndeclared config.consumerEntry).capability? = none := rfl
    exact hnote hwork (work.state.mentions_warnFile file hquiet _)
      (reports_warnFile work.state file _).registry
  · intro work name hwork hlacks
    exact hwork.schedule (hlacks.congr hwork.program.files.symm hwork.registry.symm)

theorem visits_bindFile (file : String) :
    Carries (base.Visits config mail) (bindFile config mail file) :=
  (binds_visits file).bindFile

theorem Work.Visits.withOrigin (h : base.Visits config mail work) (origin : Option String) :
    base.Visits config mail (work.withOrigin origin) := by
  have hnote : work.state.Mentions (Missed config mail base)
      { work.state with currentOrigin := origin } := .of_same _ rfl rfl
  exact h.next (.note hnote mail _) rfl

theorem Work.Visits.bindFiles (h : base.Visits config mail work) (files : List String) :
    base.Visits config mail (bindFiles config mail files work) := by
  induction files generalizing work with
  | nil => exact h
  | cons file rest ih => exact ih (visits_bindFile file _ (h.withOrigin (some file)))

/-- A pass over all consumers asks for and reports what they lack, whatever the store is. -/
theorem visits_bindProgram (config : Config) (mail : Mail) (work : Work) :
    work.Visits config mail (bindProgram config mail work) :=
  ((Work.Visits.refl config mail work).bindFiles work.program.fileNames).withOrigin none

end Capabilities.Resolver
