import Capabilities.Proofs.Session.Incremental
import Capabilities.Proofs.Session.Settling
import Capabilities.Script.Parse

/-!
# The order of loading does not matter

A session is given some texts of which no two register the same capability, and is analyzed once.
All files share one store, one registry, one queue and one set of capabilities that were warned
about, and the order in which they are loaded shows in each of them. But what the session ends with
is determined by the set of the texts: the registry by where each capability comes from, the queue
and the diagnostics by what the consumers lack in the end (`Concluded`). Two orders make the
same set of texts, so they come to the same outcome.
-/

namespace Capabilities.Resolver

open Host Script Session Capabilities.Module

variable {config : Config} {mail : Mail} {base work before after : Work} {file name : String}

/-! ### What is lacked in the end -/

/-- What was missed before a pass is missed after it. -/
theorem Missed.visits (h : Missed config mail base name) (hvisits : base.Visits config mail work) :
    Missed config mail work name := by
  obtain ⟨file, hlacks, hnone⟩ := h
  refine ⟨file, hlacks.congr hvisits.program.files hvisits.registry, ?_⟩
  rw [hvisits.polled]
  exact hnone

variable [Parser]

theorem Wanted.sought {pending : PendingFile} (h : Wanted config mail work pending) :
    Sought config mail work pending := by
  obtain ⟨file, text, names, name, relative, hfile, hnames, hsites, hname, hnone, hrelative, hpath,
    htext⟩ := h
  exact ⟨file, name, relative, ⟨.ofText file text, names, hfile, hnames, hsites, hname, hnone⟩,
    hrelative, hpath, htext⟩

/-- When nothing is left to do, all that is lacked is handled. -/
theorem Complete.handled (h : Complete config mail work) (hready : Ready config work)
    (hlacks : Lacks config work file name) : Handled config mail name file work := by
  obtain ⟨source, names, hfile, hnames, hsites, hname, hnone⟩ := hlacks
  obtain ⟨text, rfl, -⟩ := hready.loaded file source hfile
  obtain ⟨object, hbound⟩ := (h.of_file? hfile).bound names hnames hsites
  exact hbound.handled name hname hnone

/-- A capability that is missed was warned about. -/
theorem Missed.warned (h : Missed config mail work name) (hcomplete : Complete config mail work)
    (hready : Ready config work) : work.state.warnedAbout name = true := by
  obtain ⟨file, hlacks, hnone⟩ := h
  have hhandled := hcomplete.handled hready hlacks
  rw [hhandled.polled] at hnone
  cases hresolve : work.table.resolve name with
  | missing => exact hhandled.missing hresolve
  | notYetAvailable => exact (hhandled.unavailable hresolve).2
  | found relative => exact hhandled.outside relative hresolve (hnone relative hresolve)

/-- When nothing is left to do and no file has failed, queued is what is sought and not loaded. -/
theorem Complete.mem_queued_iff (h : Complete config mail work) (hready : Ready config work)
    (horderly : work.program.Orderly)
    (hwanted : ∀ pending ∈ work.program.queue, Wanted config mail work pending)
    (hfailed : work.program.failed = []) (path : String) :
    path ∈ work.program.queued ↔ work.program.isLoaded path = false ∧
      ∃ pending, Sought config mail work pending ∧ pending.path = path := by
  constructor
  · intro hpath
    obtain ⟨pending, hpending, rfl⟩ := List.mem_map.1 hpath
    exact ⟨horderly.unloaded _ hpath, pending, (hwanted pending hpending).sought, rfl⟩
  · rintro ⟨hunloaded, pending, ⟨file, name, relative, hlacks, hresolve, hmodule, -⟩, rfl⟩
    have hhandled := h.handled hready hlacks
    rw [hhandled.polled] at hresolve
    rcases hhandled.known relative pending.path hresolve hmodule with hloaded | hqueued | hlost
    · rw [hunloaded] at hloaded
      cases hloaded
    · exact (Program.isQueued_iff _ _).1 hqueued
    · unfold Program.hasFailed at hlost
      rw [hfailed] at hlost
      cases hlost

/-- What is missed in a pass and nothing else comes to be reported in it. -/
theorem Work.Visits.reported_iff (h : base.Visits config mail work)
    (hbefore : ¬ base.state.Reported name) (hcomplete : Complete config mail work)
    (hready : Ready config work) (haccounted : Accounted config work) :
    work.state.Reported name ↔ Missed config mail work name := by
  constructor
  · intro hreported
    rcases h.state.reported name hreported with hearlier | hmissed
    · exact absurd hearlier hbefore
    · exact hmissed.visits h
  · intro hmissed
    exact haccounted.reported name (hmissed.warned hcomplete hready)

end Capabilities.Resolver

namespace Capabilities.Session

open Host Script Resolver Capabilities.Types Capabilities.Module

variable {config : Config} {paths : CapabilityPaths} {mail other : Mail} {loads others : List Load}
  {work after : Work} {file name : String} {pending : PendingFile}

/-- Two sessions came to the same, up to a renaming of types and the order of everything. -/
structure SameOutcome (config : Config) (first second : Work) : Prop where
  /-- The same files are loaded. -/
  files : ∀ path, second.program.file? path = first.program.file? path
  /-- The same capabilities are registered, by the same files, with the same types. -/
  registry : ∃ renames, Renaming renames first.program.store second.program.store ∧
    ∀ name, Option.Rel (fun entry other => entry.origin = other.origin ∧
      renames entry.type other.type) (first.state.registry.provider? name)
      (second.state.registry.provider? name)
  /-- The files are bound to the same names in the same order, of which the same are resolved. -/
  bindings : ∀ path ∈ first.program.fileNames,
    (second.state.binding? path).map (fun binding => (binding.declared, binding.resolved)) =
      (first.state.binding? path).map fun binding => (binding.declared, binding.resolved)
  /-- The consumers' parameters enumerate the same names. -/
  enumerations : ∀ path source, first.program.file? path = some source →
    ∀ entry ∈ entries [config.consumerEntry] source.root,
      (second.program.localValue? path entry.node.id importsParameter).map
          second.program.store.memberNames =
        (first.program.localValue? path entry.node.id importsParameter).map
          first.program.store.memberNames
  /-- The same files wait to be loaded. -/
  queued : ∀ path, path ∈ second.program.queued ↔ path ∈ first.program.queued
  /-- There are diagnostics for the same capabilities. -/
  reported : ∀ name, second.state.Reported name ↔ first.state.Reported name

/-! ### What determines the outcome -/

section

variable [Parser]

/-- A session at its end with a path table that does not change: queued is what the table names
    for what the consumers lack, as far as it is not loaded, and there are diagnostics for what else
    they lack. -/
structure Concluded (config : Config) (paths : CapabilityPaths) (mail : Mail) (loads : List Load)
    (work : Work) : Prop extends Ended config mail loads work where
  table : work.table = .fixed paths
  queued : ∀ path, path ∈ work.program.queued ↔ work.program.isLoaded path = false ∧
    ∃ pending, Sought config mail work pending ∧ pending.path = path
  reported : ∀ name, work.state.Reported name ↔ Missed config mail work name

/-- Consumers lack the same in sessions that loaded the same. -/
theorem Ended.lacks (h : Ended config mail loads work) (h' : Ended config other others after)
    (hagree : Agree config (loads.map Load.text) (others.map Load.text))
    (hlacks : Lacks config work file name) : Lacks config after file name := by
  obtain ⟨source, names, hfile, hnames, hsites, hname, hnone⟩ := hlacks
  have hpath : file ∈ work.program.fileNames := by
    obtain ⟨loaded, hloaded, -⟩ := Option.map_eq_some_iff.1 hfile
    exact (Keyed.mem_keys_iff _ _).2 (by rw [hloaded]; rfl)
  refine ⟨source, names, ?_, hnames, ?_, hname, ?_⟩
  · rw [h.file?_eq h' hagree]
    exact hfile
  · rw [Ne, h.sites_eq_nil_iff h' hagree hpath]
    exact hsites
  · rw [← Option.not_isSome_iff_eq_none, h.isSome_lookup?_eq h' hagree, hnone]
    simp

section

variable (h : Concluded config paths mail loads work)
  (h' : Concluded config paths other others after)
  (hagree : Agree config (loads.map Load.text) (others.map Load.text))

include h h'

theorem Concluded.resolve_eq (name : String) :
    (after.table.poll other).resolve name = (work.table.poll mail).resolve name := by
  rw [eq_fixed h.table (Or.inr rfl), eq_fixed h'.table (Or.inr rfl)]

include hagree

theorem Concluded.sought (hsought : Sought config mail work pending) :
    Sought config other after pending := by
  obtain ⟨file, name, relative, hlacks, hresolve, hpath, htext⟩ := hsought
  rw [← h.resolve_eq h'] at hresolve
  exact ⟨file, name, relative, h.toEnded.lacks h'.toEnded hagree hlacks, hresolve, hpath, htext⟩

theorem Concluded.missed (hmissed : Missed config mail work name) :
    Missed config other after name := by
  obtain ⟨file, hlacks, hnone⟩ := hmissed
  refine ⟨file, h.toEnded.lacks h'.toEnded hagree hlacks, ?_⟩
  rw [h.resolve_eq h']
  exact hnone

/-- Sessions that loaded the same texts, in any order, come to the same. -/
theorem Concluded.sameOutcome : SameOutcome config work after := by
  have hfile := h.toEnded.file?_eq h'.toEnded hagree
  have hloaded : ∀ path, after.program.isLoaded path = work.program.isLoaded path := by
    intro path
    have hsome := congrArg Option.isSome (hfile path)
    unfold Program.file? at hsome
    rw [Option.isSome_map, Option.isSome_map] at hsome
    exact hsome
  refine ⟨hfile, h.toEnded.registry_renamed h'.toEnded hagree,
    fun path => h.toEnded.bindings_eq h'.toEnded hagree,
    fun path source hfound entry => h.toEnded.enumerations_eq h'.toEnded hagree hfound, ?_, ?_⟩
  · intro path
    rw [h.queued, h'.queued, hloaded]
    refine and_congr_right fun _ => exists_congr fun pending => and_congr_left fun _ => ?_
    exact ⟨h'.sought h hagree.symm, h.sought h' hagree⟩
  · intro name
    rw [h.reported, h'.reported]
    exact ⟨h'.missed h hagree.symm, h.missed h' hagree⟩

end

/-! ### Adding texts and analyzing once -/

end

namespace Engine

variable {engine : Engine Installed} {resolver last : ResolverPlugin}
  {texts : List (String × String)}

theorem Hosts.unique {count : Nat} (h : engine.Hosts resolver count)
    (h' : engine.Hosts last count) : resolver = last :=
  Option.some.inj (h.resolver?.symm.trans h'.resolver?)

theorem adding_eq_addFile {step : Step} (h : step ∈ adding texts) :
    ∃ path text origin, step = .addFile path text origin := by
  obtain ⟨text, -, rfl⟩ := List.mem_map.1 h
  exact ⟨_, _, _, rfl⟩

section

variable [Parser]

theorem failed_adding (engine : Engine Installed) (texts : List (String × String)) :
    (engine.run (adding texts)).program.failed = engine.program.failed := by
  induction texts generalizing engine with
  | nil => rfl
  | cons text rest ih =>
    refine (ih (engine.step (.addFile text.1 (some text.2) none))).trans ?_
    obtain ⟨more, hmore, -⟩ := addFile_eq_queueing engine.program text.1 (some text.2) none
    change (engine.program.addFile text.1 (some text.2) none).2.failed = _
    rw [hmore]
    rfl

/-- A new session with an enabled resolver that adds texts and analyzes once. -/
structure Begun (config : Config) (paths : CapabilityPaths) (mail : Mail)
    (resolver : ResolverPlugin) (engine : Engine Installed) : Prop where
  hosts : engine.Hosts resolver 0
  fresh : resolver.Fresh config
  program : engine.program = .initial
  enabled : (resolver.poll mail).isEnabled = true
  table : resolver.table = .fixed paths

theorem Begun.audited (h : Begun config paths mail resolver engine) (steps : List Step) :
    (engine.run steps).Audited config 0 := by
  have haccounted : Accounted config (resolver.work engine.program) := by
    unfold ResolverPlugin.work
    rw [h.fresh.state, h.table]
    exact .start (PathTable.waits_fixed paths) config engine.program
  have haudited : engine.Audited config 0 := ⟨resolver, h.hosts, h.fresh.settings, haccounted⟩
  rw [← perform_steps]
  exact (endures_audited config 0).perform _ haudited

theorem Begun.inOrder (h : Begun config paths mail resolver engine) (steps : List Step) :
    (engine.run steps).InOrder := by
  rw [← perform_steps]
  exact (inOrder_of_initial h.program).perform _

/-- The added texts wait to be loaded. -/
theorem Begun.works (h : Begun config paths mail resolver engine)
    (hnodup : (texts.map Prod.fst).Nodup) :
    Works config (Chronicle config) 0 [] (engine.run (adding texts)) resolver ∧
      (engine.run (adding texts)).program.queue =
        texts.map fun text => ⟨text.1, some text.2, none⟩ := by
  constructor
  · have hstart : Complete config mail (resolver.work engine.program) := by
      unfold ResolverPlugin.work
      rw [h.fresh.state, h.program]
      exact ⟨rfl, fun _ hpath => by cases hpath⟩
    exact ((Works.start h.hosts h.fresh h.program (invariant_chronicle config)).adds
      (invariant_chronicle config) hstart fun step hstep => @adding_eq_addFile texts step hstep).1
  · refine (queue_adding ?_ ?_).trans ?_
    · intro text _
      rw [h.program]
      rfl
    · rw [h.program]
      exact hnodup
    · rw [h.program]
      rfl

/-- An analysis loads the queue, which reports no capability, and visits all consumers in the
    end. -/
theorem Hosts.analyze_visits (h : engine.Hosts resolver 0) (horder : engine.InOrder)
    (read : String → Option String) (mail : Mail) :
    ∃ drained last, resolver.Listens mail drained ∧ (engine.analyze read mail).2.Hosts last 0 ∧
      (drained.work (engine.drain read mail engine.pending).2.2.program).Visits resolver.config mail
        (last.work (engine.analyze read mail).2.program) := by
  obtain ⟨drained, hdrained, hlistens⟩ := h.drain_alone horder read mail engine.pending
  obtain ⟨hlast, hprogram⟩ := hdrained.dispatch_alone (acts_postInfer mail)
  have hvisits := visits_postInfer mail drained (engine.drain read mail engine.pending).2.2.program
  rw [← hprogram, hlistens.settings] at hvisits
  exact ⟨drained, _, hlistens, hlast, hvisits⟩

/-- Texts that are added are all loaded, and the session is concluded. -/
theorem Begun.concluded (h : Begun config paths mail resolver engine)
    (hnodup : (texts.map Prod.fst).Nodup) (read : String → Option String) :
    ∃ last loads, (engine.run (adding texts ++ [.analyze read mail])).resolver? = some last ∧
      loads.map Load.text = texts ∧ Concluded config paths mail loads
        (last.work (engine.run (adding texts ++ [.analyze read mail])).program) := by
  let session := engine.run (adding texts)
  have hrun : engine.run (adding texts ++ [.analyze read mail]) = (session.analyze read mail).2 :=
    run_append engine (adding texts) [.analyze read mail]
  obtain ⟨hsession, hqueue⟩ := h.works hnodup
  obtain ⟨last, more, hworks, -, -, -, hcomplete, -, hdone⟩ :=
    hsession.analyze (invariant_chronicle config).toMaintained read h.enabled
  obtain ⟨hmore, hwanted, hfailed⟩ := hdone rfl
  obtain ⟨loads, hloads, hended⟩ := hworks.ended hcomplete hwanted
  have htexts : more = texts := by
    rw [hmore]
    unfold Program.texts
    rw [hqueue, List.filterMap_map]
    exact List.filterMap_some
  have hnone : (session.analyze read mail).2.program.failed = [] := by
    refine List.eq_nil_iff_forall_not_mem.2 fun path hpath => ?_
    rcases hfailed path hpath with hbefore | ⟨pending, hpending, hunread⟩
    · rw [failed_adding, h.program] at hbefore
      cases hbefore
    · rw [hqueue] at hpending
      obtain ⟨text, -, rfl⟩ := List.mem_map.1 hpending
      cases hunread
  -- the same resolver once more, as it visits the consumers and as it accounts for what is missing
  obtain ⟨drained, visitor, hlistens, hvisitor, hvisits⟩ :=
    hsession.hosts.analyze_visits (h.inOrder (adding texts)) read mail
  rw [hvisitor.unique hworks.hosts, h.fresh.settings] at hvisits
  obtain ⟨auditor, hauditor, haccounts⟩ := h.audited (adding texts ++ [.analyze read mail])
  rw [hrun] at hauditor haccounts
  rw [hauditor.unique hworks.hosts] at haccounts
  have hquiet : ∀ name, ¬ drained.state.Reported name := by
    intro name hreported
    have hfirst := (hlistens.state.reported name hreported).resolve_right id
    rw [h.fresh.state] at hfirst
    obtain ⟨diagnostic, hmem, -⟩ := hfirst
    cases hmem
  refine ⟨last, loads, hrun ▸ hworks.hosts.resolver?, hloads.trans (by rw [htexts]; rfl), ?_⟩
  rw [hrun]
  exact ⟨hended, eq_fixed (eq_fixed h.table hlistens.table) hvisits.table,
    hcomplete.mem_queued_iff hworks.ready hworks.orderly hwanted hnone,
    fun name => hvisits.reported_iff (hquiet name) hcomplete hworks.ready haccounts.accounted⟩

/-- The order in which files are added does not matter if no two of them register the same
    capability: an analysis comes to the same. -/
theorem sameOutcome_of_perm {texts reordered : List (String × String)}
    (hbegun : Begun config paths mail resolver engine) (hnodup : (texts.map Prod.fst).Nodup)
    (hunshared : Unshared config texts) (hperm : texts.Perm reordered)
    (read again : String → Option String) :
    ∃ first second,
      (engine.run (adding texts ++ [.analyze read mail])).resolver? = some first ∧
      (engine.run (adding reordered ++ [.analyze again mail])).resolver? = some second ∧
      SameOutcome config
        (first.work (engine.run (adding texts ++ [.analyze read mail])).program)
        (second.work (engine.run (adding reordered ++ [.analyze again mail])).program) := by
  have hnodup' : (reordered.map Prod.fst).Nodup := (hperm.map Prod.fst).nodup_iff.1 hnodup
  obtain ⟨first, loads, hfirst, hloads, hconcluded⟩ := hbegun.concluded hnodup read
  obtain ⟨second, others, hsecond, hothers, hconcluded'⟩ := hbegun.concluded hnodup' again
  refine ⟨first, second, hfirst, hsecond, hconcluded.sameOutcome hconcluded' ?_⟩
  rw [hloads, hothers]
  exact agree_of_perm hnodup hunshared hperm

end

/-- A consumer of a capability that is provided, of one whose module has yet to be loaded, and of
    one that nobody knows. -/
def mixedText : String :=
  "main.consumes = [\"log\", \"fs\", \"net\"]; function main(options, imports, register) \x7b\x7d"

def loggerText : String :=
  "function main(options, imports, register) \x7b register(null, \x7b log: 1 \x7d); \x7d"

def mixedTexts : List (String × String) :=
  [("/m/plugins/a/index.js", mixedText), ("/m/plugins/c/index.js", loggerText)]

theorem begun_mapped : Begun .default ⟨[(.of "fs", "plugins/b/index")]⟩ []
    ⟨.default, .initial, .fixed ⟨[(.of "fs", "plugins/b/index")]⟩, none⟩ mapped := by
  refine ⟨⟨[], [], rfl, rfl⟩, ⟨rfl, rfl, ?_⟩, rfl, rfl, rfl⟩
  intro reply hreply
  cases hreply

theorem registered_mixed :
    (provision .default "/m/plugins/a/index.js" mixedText).registry.providers.keys = [] := by
  decide +kernel

/-- Of two texts one registers nothing. -/
theorem unshared_pair [Parser] {path text : String}
    (h : (provision config path text).registry.providers.keys = []) (load : String × String) :
    Unshared config [(path, text), load] := by
  have hnothing : ∀ name, registers config (path, text) name ≠ true := by
    intro name hname
    have hmem := (Keyed.mem_keys_iff _ _).2 hname
    rw [h] at hmem
    cases hmem
  intro first hfirst second hsecond name hname hname'
  simp only [List.mem_cons, List.not_mem_nil, or_false] at hfirst hsecond
  rcases hfirst with rfl | rfl
  · exact absurd hname (hnothing name)
  · rcases hsecond with rfl | rfl
    · exact absurd hname' (hnothing name)
    · rfl

theorem analyzed_mixed :
    let forth := mapped.run (adding mixedTexts ++ [.analyze (fun _ => none) []])
    let back := mapped.run (adding mixedTexts.reverse ++ [.analyze (fun _ => none) []])
    forth.program.fileNames = ["/m/plugins/a/index.js", "/m/plugins/c/index.js"] ∧
    back.program.fileNames = ["/m/plugins/c/index.js", "/m/plugins/a/index.js"] ∧
    forth.program.queued = ["/m/plugins/b/index.js"] ∧
    forth.resolver?.map (fun resolver => ["log", "fs", "net"].map resolver.state.warnedAbout) =
      some [false, false, true] := by
  decide +kernel

theorem sameOutcome_mixed :
    let forth := mapped.run (adding mixedTexts ++ [.analyze (fun _ => none) []])
    let back := mapped.run (adding mixedTexts.reverse ++ [.analyze (fun _ => none) []])
    forth.program.fileNames ≠ back.program.fileNames ∧
    forth.program.queued = ["/m/plugins/b/index.js"] ∧
    ∃ first second, forth.resolver? = some first ∧ back.resolver? = some second ∧
      ["log", "fs", "net"].map first.state.warnedAbout = [false, false, true] ∧
      SameOutcome .default (first.work forth.program) (second.work back.program) := by
  intro forth back
  obtain ⟨hforth, hback, hqueued, hwarned⟩ := analyzed_mixed
  have hnodup : (mixedTexts.map Prod.fst).Nodup := by decide
  have hunshared : Unshared .default mixedTexts := unshared_pair registered_mixed _
  obtain ⟨first, second, hfirst, hsecond, hsame⟩ := sameOutcome_of_perm begun_mapped hnodup
    hunshared mixedTexts.reverse_perm.symm (fun _ => none) fun _ => none
  refine ⟨?_, hqueued, first, second, hfirst, hsecond, ?_, hsame⟩
  · rw [hforth, hback]
    decide
  · rw [hfirst] at hwarned
    exact Option.some.inj hwarned

end Engine

end Capabilities.Session
