import Capabilities.Proofs.Session.Closure
import Capabilities.Proofs.Session.Demand
import Mathlib.Algebra.Order.BigOperators.Group.Finset
import Capabilities.Script.Parse

/-!
# Every session settles

A resolver asks for the modules that a fixed path table names, below the modules roots of loaded
files. What can ever be loaded was given a text or can be read from disk, so there are finitely many
such modules (`candidates`). A module that is asked for was not known before: it was not loaded, not
queued and could not have failed, and whatever becomes of it, it is known from then on. So an
analysis that leaves something in the queue makes one more candidate known, and there are no more
such analyses than candidates, whatever the files consume, and whether their providers can be
loaded and register what the table promises or not.
-/

namespace Capabilities.Session

open Host Script Resolver Inference Capabilities.Types

/-! ### Where texts come from -/

/-- An analysis reads only some paths from disk. -/
def Step.Reads (readable : Finset String) : Step → Prop
  | .analyze read _ => ∀ path, (read path).isSome = true → path ∈ readable
  | .addFile .. | .updateFile .. => True

namespace Engine

variable {π : Type} [Plugin π]

variable [Parser]

/-- The paths that are added or updated with a text in the course of some steps. A file that is
    not queued when it is added does not count. -/
def given (engine : Engine π) : List Step → List String
  | [] => []
  | .addFile path text origin :: rest =>
    (if text.isSome && (engine.program.addFile path text origin).1 then [path] else []) ++
      (engine.step (.addFile path text origin)).given rest
  | .updateFile path text :: rest => path :: (engine.step (.updateFile path text)).given rest
  | .analyze read mail :: rest => (engine.step (.analyze read mail)).given rest

/-- The reports of analyses that follow one another. The disk and the letters of the host may be
    others each time. -/
def reports (engine : Engine π) : List ((String → Option String) × Mail) → List AnalysisReport
  | [] => []
  | (read, mail) :: rest =>
    (engine.analyze read mail).1 :: (engine.analyze read mail).2.reports rest

theorem given_cons (engine : Engine π) (first : Step) (rest : List Step) :
    engine.given (first :: rest) = engine.given [first] ++ (engine.step first).given rest := by
  cases first with
  | addFile path text origin => simp [given]
  | updateFile path text => simp [given]
  | analyze read mail => simp [given]

end Engine

end Capabilities.Session

namespace Capabilities.Resolver

open Host Session

variable {config : Config} {paths : CapabilityPaths} {resolver later last : ResolverPlugin}
  {mail : Mail}

/-! ### A resolver while files are loaded -/

/-- The settings stay, at most the path table has arrived, and no capability was reported. -/
structure ResolverPlugin.Listens (mail : Mail) (resolver later : ResolverPlugin) : Prop where
  settings : later.config = resolver.config
  table : later.table = resolver.table ∨ later.table = resolver.table.poll mail
  state : resolver.state.Mentions (fun _ => False) later.state

/-- The resolver has its settings, and a path table that does not change. -/
structure ResolverPlugin.Guided (config : Config) (paths : CapabilityPaths)
    (resolver : ResolverPlugin) : Prop where
  settings : resolver.config = config
  table : resolver.table = .fixed paths

theorem eq_fixed {table later : PathTable} (h : table = .fixed paths)
    (hlater : later = table ∨ later = table.poll mail) : later = .fixed paths := by
  rcases hlater with rfl | rfl
  · exact h
  · rw [h]
    rfl

namespace ResolverPlugin

theorem Listens.refl (mail : Mail) (resolver : ResolverPlugin) : resolver.Listens mail resolver :=
  ⟨rfl, Or.inl rfl, .of_same _ rfl rfl⟩

theorem Listens.trans (h : resolver.Listens mail later) (h' : later.Listens mail last) :
    resolver.Listens mail last := by
  refine ⟨h'.settings.trans h.settings, ?_, h.state.trans h'.state⟩
  rcases h'.table with htable | htable
  · rw [htable]
    exact h.table
  · right
    rcases h.table with hformer | hformer
    · rw [htable, hformer]
    · rw [htable, hformer, poll_poll_table]

theorem Listens.guided (h : resolver.Listens mail later) (hguided : resolver.Guided config paths) :
    later.Guided config paths :=
  ⟨h.settings.trans hguided.settings, eq_fixed hguided.table h.table⟩

theorem listens_beforeLoad (mail : Mail) (path : String) (resolver : ResolverPlugin)
    (program : Program) : resolver.Listens mail (beforeLoad mail path resolver program).1 := by
  unfold ResolverPlugin.beforeLoad
  dsimp only
  split
  · exact ⟨rfl, Or.inl rfl, .of_same _ rfl rfl⟩
  · exact ⟨rfl, Or.inl rfl, .of_same _ rfl rfl⟩

theorem listens_afterLoad (mail : Mail) (path : String) (resolver : ResolverPlugin)
    (program : Program) : resolver.Listens mail (afterLoad mail path resolver program).1 := by
  obtain ⟨-, hstate, htable⟩ :=
    serves_afterLoad mail path resolver program (fun _ => False) fun _ => False
  refine ⟨?_, htable, hstate⟩
  unfold ResolverPlugin.afterLoad
  dsimp only
  split <;> rfl

theorem Guided.postInfer (h : resolver.Guided config paths) (mail : Mail) (program : Program) :
    (postInfer mail resolver program).1.Guided config paths := by
  refine ⟨?_, eq_fixed h.table (visits_postInfer mail resolver program).table⟩
  refine Eq.trans ?_ h.settings
  unfold ResolverPlugin.postInfer
  dsimp only
  split <;> rfl

end ResolverPlugin

/-! ### Modules that can be asked for -/

/-- The files of the modules that a path table names, below the modules roots of some files. -/
def candidates (config : Config) (paths : CapabilityPaths) (sources : Finset String) :
    Finset String :=
  sources.biUnion fun file =>
    (paths.entries.filterMap fun entry => config.modulePath? file entry.2).toFinset

theorem card_candidates_le (config : Config) (paths : CapabilityPaths)
    (sources : Finset String) :
    (candidates config paths sources).card ≤ sources.card * paths.size := by
  refine Finset.card_biUnion_le_card_mul _ _ _ fun file _ => ?_
  exact (List.toFinset_card_le _).trans (List.length_filterMap_le _ _)

theorem mem_of_resolve {name relative : String}
    (h : (PathTable.fixed paths).resolve name = .found relative) :
    ∃ key, (key, relative) ∈ paths.entries := by
  have hget : paths.get? name = some relative := by
    unfold PathTable.resolve PathTable.paths? PathTable.fixed PendingReply.known
      ReplyState.value? at h
    dsimp only at h
    split at h
    · rename_i path hpath
      cases h
      exact hpath
    · cases h
  unfold CapabilityPaths.get? at hget
  obtain ⟨before, after, hentries, -⟩ := List.lookup_eq_some_iff.1 hget
  exact ⟨.of name, by rw [hentries]; simp⟩

/-- A module that is asked for on behalf of some files is a candidate. -/
theorem Sought.candidate {mail : Mail} {work : Work} {pending : PendingFile}
    {sources : Finset String} (h : Sought config mail work pending)
    (htable : work.table = .fixed paths)
    (hloaded : ∀ file source, work.program.file? file = some source → file ∈ sources) :
    pending.path ∈ candidates config paths sources ∧ pending.text = none := by
  obtain ⟨file, name, relative, ⟨source, -, hfile, -⟩, hresolve, hpath, htext⟩ := h
  rw [eq_fixed htable (Or.inr rfl)] at hresolve
  obtain ⟨key, hkey⟩ := mem_of_resolve hresolve
  refine ⟨Finset.mem_biUnion.2 ⟨file, hloaded file source hfile, ?_⟩, htext⟩
  exact List.mem_toFinset.2 (List.mem_filterMap.2 ⟨_, hkey, hpath⟩)

end Capabilities.Resolver

namespace Capabilities.Session.Engine

open Host Script Resolver Inference Capabilities.Types

variable {config : Config} {paths : CapabilityPaths} {resolver : ResolverPlugin}
  {engine : Engine Installed} {sources : Finset String} {read : String → Option String}
  {mail : Mail} {pending : PendingFile} {queue : List PendingFile}

/-! ### A resolver on its own -/

/-- A hook of the engine is one of the resolver. -/
theorem Hosts.dispatch_alone {hook : Installed → Program → Installed × Program}
    {action : ResolverPlugin → Program → ResolverPlugin × Program} (h : engine.Hosts resolver 0)
    (hacts : Acts hook action) :
    (engine.dispatch hook).Hosts (action resolver engine.program).1 0 ∧
      (engine.dispatch hook).program = (action resolver engine.program).2 := by
  obtain ⟨first, last, hnone, -, -, hhosts, hprogram⟩ := h.dispatch hacts
  obtain ⟨rfl, rfl⟩ := hnone rfl
  rw [queueing_nil] at hhosts hprogram
  rw [queueing_nil] at hprogram
  exact ⟨hhosts, hprogram⟩

/-- The resolver asks for no files while one is loaded, and reports no capability. The file is put
    among the loaded ones if it has a text, with the origin that it has in the queue. -/
theorem Hosts.loadNext_alone [Parser] (h : engine.Hosts resolver 0) (horder : engine.InOrder)
    (read : String → Option String) (mail : Mail) (pending : PendingFile)
    (queue : List PendingFile) :
    ∃ loaded, (engine.loadNext read mail pending queue).Hosts loaded 0 ∧
      resolver.Listens mail loaded ∧
      (engine.loadNext read mail pending queue).program.queue = queue ∧
      ((pending.text.or (read pending.path) = none ∧
          (engine.loadNext read mail pending queue).program.files = engine.program.files) ∨
        ∃ source inference, (engine.loadNext read mail pending queue).program.files =
          engine.program.files.put pending.path ⟨source, inference, pending.origin⟩) := by
  rcases loadNext_cases horder.primitives read mail pending queue with
    ⟨htext, hnext⟩ | ⟨text, inference, store, -, -, -, hnext⟩
  · rw [hnext]
    exact ⟨resolver, h, .refl mail resolver, rfl, Or.inl ⟨htext, rfl⟩⟩
  · rw [hnext]
    let opened : Engine Installed := (engine.popping queue).opening pending text
    obtain ⟨hannounced, hprogram⟩ := (show opened.Hosts resolver 0 from h).dispatch_alone
      (acts_beforeLoad mail pending.path)
    rw [program_beforeLoad] at hprogram
    generalize opened.dispatch (Plugin.beforeLoad mail pending.path) = announced at *
    let inferred : Engine Installed := announced.inferring store pending.path
      ⟨.ofText pending.path text, .empty, pending.origin⟩ inference
    obtain ⟨hloaded, hprogram'⟩ := (show inferred.Hosts _ 0 from hannounced).dispatch_alone
      (acts_afterLoad mail pending.path)
    have hallows := (serves_afterLoad mail pending.path
      (ResolverPlugin.beforeLoad mail pending.path resolver opened.program).1 inferred.program
      (fun _ => False) fun _ => False).program
    refine ⟨_, hloaded, (ResolverPlugin.listens_beforeLoad mail pending.path resolver _).trans
      (ResolverPlugin.listens_afterLoad mail pending.path _ _), ?_,
      Or.inr ⟨.ofText pending.path text, inference, ?_⟩⟩
    · obtain ⟨more, hmore, hleft⟩ := hallows.queue
      obtain rfl : more = [] := List.eq_nil_iff_forall_not_mem.2 hmore
      rw [List.append_nil] at hleft
      have hqueue : announced.program.queue = queue := by
        rw [hprogram]
        rfl
      exact (congrArg Program.queue hprogram').trans (hleft.trans hqueue)
    · have hinferred : inferred.program.files = engine.program.files.put pending.path
          ⟨.ofText pending.path text, inference, pending.origin⟩ := by
        have hfiles : announced.program.files = opened.program.files :=
          congrArg Program.files hprogram
        exact (congrArg (Keyed.put · pending.path _) hfiles).trans (Keyed.put_put ..)
      exact (congrArg Program.files hprogram').trans (hallows.files.trans hinferred)

theorem Hosts.drain_alone [Parser] (h : engine.Hosts resolver 0) (horder : engine.InOrder)
    (read : String → Option String) (mail : Mail) (steps : Nat) :
    ∃ drained, (engine.drain read mail steps).2.2.Hosts drained 0 ∧
      resolver.Listens mail drained := by
  induction steps generalizing engine resolver with
  | zero => exact ⟨resolver, h, .refl mail resolver⟩
  | succ steps ih =>
    cases hqueue : engine.program.queue with
    | nil =>
      rw [drain_nil _ hqueue]
      exact ⟨resolver, h, .refl mail resolver⟩
    | cons pending queue =>
      obtain ⟨loaded, hloaded, hlistens, -⟩ := h.loadNext_alone horder read mail pending queue
      obtain ⟨drained, hdrained, hlistens'⟩ := ih hloaded (horder.next read mail hqueue).1
      rw [Engine.drain_cons _ hqueue]
      exact ⟨drained, hdrained, hlistens.trans hlistens'⟩

/-- A session with a resolver on its own, all of whose files come from certain paths. -/
structure Supplied (config : Config) (paths : CapabilityPaths) (sources : Finset String)
    (engine : Engine Installed) : Prop where
  hosts : ∃ resolver, engine.Hosts resolver 0 ∧ resolver.Guided config paths
  order : engine.InOrder
  loaded : ∀ path, engine.program.isLoaded path = true → path ∈ sources
  queued : ∀ pending ∈ engine.program.queue, pending.text.isSome = true → pending.path ∈ sources

theorem Supplied.loadNext [Parser] (h : Supplied config paths sources engine)
    (hread : ∀ path, (read path).isSome = true → path ∈ sources) (mail : Mail)
    (hqueue : engine.program.queue = pending :: queue) :
    Supplied config paths sources (engine.loadNext read mail pending queue) := by
  obtain ⟨resolver, hhosts, hguided⟩ := h.hosts
  obtain ⟨loaded, hloaded, hlistens, hleft, -⟩ :=
    hhosts.loadNext_alone h.order read mail pending queue
  have hattempted := h.order.attempted read mail hqueue
  refine ⟨⟨loaded, hloaded, hlistens.guided hguided⟩, (h.order.next read mail hqueue).1, ?_, ?_⟩
  · intro path hpath
    rw [hattempted.loaded, Bool.or_eq_true, Bool.and_eq_true, beq_iff_eq] at hpath
    rcases hpath with ⟨hsome, rfl⟩ | hbefore
    · cases htext : pending.text with
      | some text =>
        exact h.queued pending (by rw [hqueue]; exact List.mem_cons_self) (by rw [htext]; rfl)
      | none =>
        rw [htext, Option.none_or] at hsome
        exact hread pending.path hsome
    · exact h.loaded path hbefore
  · intro other hother
    rw [hleft] at hother
    exact h.queued other (by rw [hqueue]; exact List.mem_cons_of_mem _ hother)

theorem Supplied.drain [Parser] (h : Supplied config paths sources engine)
    (hread : ∀ path, (read path).isSome = true → path ∈ sources) (mail : Mail) (steps : Nat) :
    Supplied config paths sources (engine.drain read mail steps).2.2 := by
  induction steps generalizing engine with
  | zero => exact h
  | succ steps ih =>
    cases hqueue : engine.program.queue with
    | nil =>
      rw [drain_nil _ hqueue]
      exact h
    | cons pending queue =>
      rw [Engine.drain_cons _ hqueue]
      exact ih (h.loadNext hread mail hqueue)

theorem Supplied.start (hstart : engine.Starts config 0)
    (htable : ∀ resolver, engine.resolver? = some resolver → resolver.table = .fixed paths)
    (sources : Finset String) : Supplied config paths sources engine := by
  have horder := hstart.inOrder
  obtain ⟨resolver, hhosts, hfresh, hprogram⟩ := hstart
  refine ⟨⟨resolver, hhosts, hfresh.settings, htable resolver hhosts.resolver?⟩, horder, ?_, ?_⟩
  · intro path hpath
    rw [hprogram] at hpath
    cases hpath
  · intro pending hpending
    rw [hprogram] at hpending
    cases hpending

/-- In a pass the resolver asks for candidates only, and has no text for them. -/
theorem Supplied.look (h : Supplied config paths sources engine) (mail : Mail) :
    Supplied config paths sources (engine.dispatch (Plugin.postInfer mail)) ∧
      ∃ more, (∀ pending ∈ more, pending.path ∈ candidates config paths sources ∧
          pending.text = none) ∧
        (engine.dispatch (Plugin.postInfer mail)).program.queue = engine.program.queue ++ more := by
  obtain ⟨resolver, hhosts, hguided⟩ := h.hosts
  obtain ⟨hlooked, hprogram⟩ := hhosts.dispatch_alone (acts_postInfer mail)
  have hallows := (visits_postInfer mail resolver engine.program).program
  change engine.program.Allows _ (ResolverPlugin.postInfer mail resolver engine.program).2
    at hallows
  rw [← hprogram] at hallows
  obtain ⟨more, hmore, hqueue⟩ := hallows.queue
  have hasked : ∀ pending ∈ more, pending.path ∈ candidates config paths sources ∧
      pending.text = none := by
    intro pending hpending
    have hsought := hmore pending hpending
    rw [hguided.settings] at hsought
    refine hsought.candidate hguided.table fun file source hfile => h.loaded file ?_
    obtain ⟨loaded, hloaded, -⟩ := Option.map_eq_some_iff.1 hfile
    exact Option.isSome_iff_exists.2 ⟨loaded, hloaded⟩
  refine ⟨⟨⟨_, hlooked, hguided.postInfer mail _⟩, endures_inOrder.look engine mail h.order, ?_,
    ?_⟩, more, hasked, hqueue⟩
  · intro path hpath
    unfold Program.isLoaded at hpath
    rw [hallows.files] at hpath
    exact h.loaded path hpath
  · intro pending hpending hsome
    rw [hqueue] at hpending
    rcases List.mem_append.1 hpending with hold | hnew
    · exact h.queued pending hold hsome
    · rw [(hasked pending hnew).2] at hsome
      cases hsome

section

variable [Parser]

/-- An analysis forgets no path, and a candidate that it leaves in the queue was not known
    before. -/
theorem Supplied.analyze (h : Supplied config paths sources engine)
    (hread : ∀ path, (read path).isSome = true → path ∈ sources) (mail : Mail) :
    Supplied config paths sources (engine.analyze read mail).2 ∧
      (∀ path, engine.program.Knows path → (engine.analyze read mail).2.program.Knows path) ∧
      ∀ pending ∈ (engine.analyze read mail).2.program.queue,
        pending.path ∈ candidates config paths sources ∧ ¬ engine.program.Knows pending.path := by
  let drained : Engine Installed := (engine.drain read mail engine.pending).2.2
  have hempty : drained.program.queue = [] := h.order.drained_pending read mail
  have hdrained : Supplied config paths sources drained := h.drain hread mail engine.pending
  obtain ⟨hlooked, more, hmore, hqueue⟩ := hdrained.look mail
  rw [hempty, List.nil_append] at hqueue
  have hallows := allows_postInfer mail drained
  have hkept : ∀ path, engine.program.Knows path → drained.program.Knows path := by
    intro path hknown
    have hloads := (endures_knows path).persists.perform_loads engine read mail engine.pending
      ⟨h.order, hknown⟩
    rw [← drain_eq_perform] at hloads
    exact hloads.2
  refine ⟨hlooked, fun path hknown => hallows.knows (hkept path hknown), ?_⟩
  intro pending hpending
  have hpending' : pending ∈ (drained.dispatch (Plugin.postInfer mail)).program.queue := hpending
  obtain ⟨hcandidate, htext⟩ := hmore pending (hqueue ▸ hpending')
  refine ⟨hcandidate, fun hknown => ?_⟩
  -- it is queued without a text, so after the drain it was neither loaded nor had it failed
  rcases hkept pending.path hknown with hloaded | hqueued | hfailed
  · have hunloaded := hlooked.order.tidy.unloaded pending.path
      (List.mem_map.2 ⟨pending, hpending', rfl⟩)
    unfold Program.isLoaded at hunloaded hloaded
    rw [hallows.files, hloaded] at hunloaded
    cases hunloaded
  · unfold Program.isQueued at hqueued
    rw [hempty] at hqueued
    cases hqueued
  · have hsome := hlooked.order.tidy.retried pending hpending'
    unfold Program.hasFailed at hsome hfailed
    rw [hallows.failed, htext] at hsome
    cases hsome hfailed

theorem Supplied.step {readable : Finset String} {step : Step}
    (h : Supplied config paths sources engine) (hsub : readable ⊆ sources)
    (hgiven : ∀ path ∈ engine.given [step], path ∈ sources) (hreads : step.Reads readable) :
    Supplied config paths sources (engine.step step) := by
  have horder := endures_inOrder.act engine (.step step) h.order
  cases step with
  | addFile path text origin =>
    cases hadded : (engine.program.addFile path text origin).1 with
    | false =>
      have hsame : engine.step (.addFile path text origin) = engine := by
        change ({ engine with program := (engine.program.addFile path text origin).2 } :
          Engine Installed) = engine
        rw [Program.addFile_of_refused hadded]
      rw [hsame]
      exact h
    | true =>
      have hprogram : (engine.step (.addFile path text origin)).program =
          { engine.program with queue := engine.program.queue ++ [⟨path, text, origin⟩] } :=
        Program.queue_of_added hadded
      refine ⟨h.hosts, horder, ?_, ?_⟩
      · rw [hprogram]
        exact h.loaded
      · intro pending hpending hsome
        rw [hprogram] at hpending
        rcases List.mem_append.1 hpending with hold | hnew
        · exact h.queued pending hold hsome
        · rw [List.mem_singleton.1 hnew] at hsome ⊢
          refine hgiven path ?_
          have hsome' : text.isSome = true := hsome
          simp [given, hadded, hsome']
  | updateFile path text =>
    refine ⟨h.hosts, horder, ?_, ?_⟩
    · intro other hother
      refine h.loaded other ?_
      have hother' : ((engine.program.files.erase path).get? other).isSome = true := hother
      rw [Keyed.get?_erase] at hother'
      split at hother'
      · cases hother'
      · exact hother'
    · intro pending hpending hsome
      rcases List.mem_append.1 hpending with hold | hnew
      · exact h.queued pending (List.mem_filter.1 hold).1 hsome
      · rw [List.mem_singleton.1 hnew]
        exact hgiven path (by simp [given])
  | analyze read mail => exact (h.analyze (fun path hpath => hsub (hreads path hpath)) mail).1

theorem Supplied.run {readable : Finset String} {steps : List Step}
    (h : Supplied config paths sources engine) (hsub : readable ⊆ sources)
    (hgiven : ∀ path ∈ engine.given steps, path ∈ sources)
    (hreads : ∀ step ∈ steps, step.Reads readable) :
    Supplied config paths sources (engine.run steps) := by
  induction steps generalizing engine with
  | nil => exact h
  | cons first rest ih =>
    rw [given_cons] at hgiven
    refine ih (h.step hsub (fun path hpath => hgiven path (List.mem_append_left _ hpath))
      (hreads first List.mem_cons_self)) ?_ ?_
    · exact fun path hpath => hgiven path (List.mem_append_right _ hpath)
    · exact fun step hstep => hreads step (List.mem_cons_of_mem _ hstep)

/-! ### There is an end to it -/

def unknown (config : Config) (paths : CapabilityPaths) (sources : Finset String)
    (program : Program) : Finset String :=
  (candidates config paths sources).filter fun path => ¬ program.Knows path

/-- An analysis that leaves something in the queue makes a candidate known. -/
theorem Supplied.unknown_lt (h : Supplied config paths sources engine)
    (hread : ∀ path, (read path).isSome = true → path ∈ sources) (mail : Mail) :
    (unknown config paths sources (engine.analyze read mail).2.program).card +
        (if 0 < (engine.analyze read mail).1.queued then 1 else 0) ≤
      (unknown config paths sources engine.program).card := by
  obtain ⟨-, hkept, hnew⟩ := h.analyze hread mail
  have hsub : unknown config paths sources (engine.analyze read mail).2.program ⊆
      unknown config paths sources engine.program := by
    intro path hpath
    obtain ⟨hcandidate, hunknown⟩ := Finset.mem_filter.1 hpath
    exact Finset.mem_filter.2 ⟨hcandidate, fun hknown => hunknown (hkept path hknown)⟩
  split
  · rename_i hqueued
    obtain ⟨pending, hpending⟩ := List.exists_mem_of_length_pos hqueued
    obtain ⟨hcandidate, hunknown⟩ := hnew pending hpending
    refine Finset.card_lt_card ((Finset.ssubset_iff_of_subset hsub).2 ⟨pending.path, ?_, ?_⟩)
    · exact Finset.mem_filter.2 ⟨hcandidate, hunknown⟩
    · intro hpath
      refine (Finset.mem_filter.1 hpath).2 (Or.inr (Or.inl ?_))
      exact List.any_eq_true.2 ⟨pending, hpending, by simp⟩
  · exact Finset.card_le_card hsub

theorem Supplied.reports_le (h : Supplied config paths sources engine)
    {analyses : List ((String → Option String) × Mail)}
    (hreads : ∀ analysis ∈ analyses, ∀ path, (analysis.1 path).isSome = true → path ∈ sources) :
    ((engine.reports analyses).filter (0 < ·.queued)).length ≤
      (unknown config paths sources engine.program).card := by
  induction analyses generalizing engine with
  | nil => exact Nat.zero_le _
  | cons first rest ih =>
    obtain ⟨read, mail⟩ := first
    have hread : ∀ path, (read path).isSome = true → path ∈ sources :=
      hreads (read, mail) List.mem_cons_self
    have hrest := ih (h.analyze hread mail).1
      fun analysis hanalysis => hreads analysis (List.mem_cons_of_mem _ hanalysis)
    have hlt := h.unknown_lt hread mail
    simp only [reports, List.filter_cons, decide_eq_true_eq]
    split at hlt
    · rename_i hqueued
      rw [if_pos hqueued, List.length_cons]
      omega
    · rename_i hqueued
      rw [if_neg hqueued]
      omega

theorem Supplied.analyzeAll (h : Supplied config paths sources engine)
    (hread : ∀ path, (read path).isSome = true → path ∈ sources) (mail : Mail) {more : Nat}
    (hmore : (unknown config paths sources engine.program).card ≤ more) :
    (engine.analyzeAll read mail more).2.2.program.queue = [] := by
  induction more generalizing engine with
  | zero =>
    have hlt := h.unknown_lt hread mail
    have hqueued : ¬ 0 < (engine.analyze read mail).1.queued := by
      intro hqueued
      rw [if_pos hqueued] at hlt
      omega
    exact List.eq_nil_of_length_eq_zero (Nat.eq_zero_of_not_pos hqueued)
  | succ more ih =>
    have hsucc := congrArg Prod.snd (analyzeAll_succ read mail engine more)
    dsimp only at hsucc
    rw [hsucc]
    have hlt := h.unknown_lt hread mail
    split
    · rename_i hempty
      exact hempty
    · rename_i hleft
      have hqueued : 0 < (engine.analyze read mail).1.queued := List.length_pos_iff.2 hleft
      rw [if_pos hqueued] at hlt
      exact ih (h.analyze hread mail).1 (by omega)

/-- A session settles, whatever its texts consume: of the analyses that follow it no more leave
    something in the queue than there are paths in the table for every path that was given a text
    or can be read, and with more passes than that the queue is empty in the end. -/
theorem settles {readable : Finset String} (hstart : engine.Starts config 0)
    (htable : ∀ resolver, engine.resolver? = some resolver → resolver.table = .fixed paths)
    {steps : List Step} (hsteps : ∀ step ∈ steps, step.Reads readable) :
    let session := engine.run steps
    let bound := ((engine.given steps).toFinset.card + readable.card) * paths.size
    (∀ analyses : List ((String → Option String) × Mail),
      (∀ analysis ∈ analyses, (Step.analyze analysis.1 analysis.2).Reads readable) →
      ((session.reports analyses).filter (0 < ·.queued)).length ≤ bound) ∧
    ∀ read mail limit, (Step.analyze read mail).Reads readable → bound < limit →
      (session.runPasses read mail limit).2.program.queue = [] := by
  intro session bound
  let sources : Finset String := (engine.given steps).toFinset ∪ readable
  have hreadable : readable ⊆ sources := Finset.subset_union_right
  have hsupplied : Supplied config paths sources session :=
    (Supplied.start hstart htable sources).run hreadable
      (fun path hpath => Finset.mem_union_left _ (List.mem_toFinset.2 hpath)) hsteps
  have hbound : (unknown config paths sources session.program).card ≤ bound :=
    calc (unknown config paths sources session.program).card
        ≤ (candidates config paths sources).card := Finset.card_filter_le _ _
      _ ≤ sources.card * paths.size := card_candidates_le config paths sources
      _ ≤ bound := Nat.mul_le_mul_right _ (Finset.card_union_le _ _)
  constructor
  · intro analyses hreads
    refine (hsupplied.reports_le fun analysis hanalysis path hpath => ?_).trans hbound
    exact hreadable (hreads analysis hanalysis path hpath)
  · intro read mail limit hreads hlimit
    exact hsupplied.analyzeAll (fun path hpath => hreadable (hreads path hpath)) mail (by omega)

end

def idleDisk (path : String) : Option String :=
  if path = "/plugins/b/index.js" then some "function main(options, imports, register) \x7b\x7d"
  else none

theorem reads_idleDisk (mail : Mail) :
    (Step.analyze idleDisk mail).Reads {"/plugins/b/index.js"} := by
  intro path hpath
  unfold idleDisk at hpath
  split at hpath
  · rename_i hsame
    rw [hsame]
    exact Finset.mem_singleton_self _
  · cases hpath

theorem settles_mapped :
    let session := mapped.run [.addFile "/plugins/a/index.js" (some orphanText) none]
    let visit := (idleDisk, ([] : Mail))
    (session.reports [visit, visit, visit]).map (fun report => (report.loaded, report.queued)) =
      [(["/plugins/a/index.js"], 1), (["/plugins/b/index.js"], 0), ([], 0)] ∧
    ((session.reports [visit, visit, visit]).filter (0 < ·.queued)).length ≤ 2 ∧
    (session.runPasses idleDisk [] 3).2.program.queue = [] := by
  have hsteps : ∀ step ∈ [Step.addFile "/plugins/a/index.js" (some orphanText) none],
      step.Reads {"/plugins/b/index.js"} := by
    simp [Step.Reads]
  obtain ⟨hreports, hpasses⟩ := @settles .default ⟨[(.of "fs", "plugins/b/index")]⟩ mapped
    _ {"/plugins/b/index.js"} starts_mapped (by rintro _ ⟨⟩; rfl) _ hsteps
  refine ⟨by decide +kernel, hreports _ ?_, hpasses idleDisk [] 3 (reads_idleDisk []) ?_⟩
  · simp [reads_idleDisk]
  · decide +kernel

end Capabilities.Session.Engine
