import Capabilities.CommandLine.Check
import Capabilities.Proofs.Session.Incremental
import Capabilities.Proofs.Workspace.Derivation
import Capabilities.Script.Parse

/-!
# Loading on demand

A workspace is laid out if its modules lie below one root, if no two of them declare to provide the
same capability, and if each registers what it declares. With the path table derived from them, a
session that is given some of the modules and analyzed until nothing is queued loads these, and
with each consumer the modules that provide what it consumes, and nothing else. Every analysis but
the last one loads a module, so there are no more of them than modules, and one.
-/

namespace Capabilities.Session

open Host Script Resolver Workspace CommandLine Capabilities.Types Capabilities.Module

variable {config : Config} {read : String → Option String} {modules start : List String}
  {root path name : String}

/-! ### What is needed -/

section

variable [Parser]

/-- A text has an entry function whose imports arrive somewhere: inference gives it a scope with
    the parameter. -/
def HasSite (config : Config) (path text : String) : Prop :=
  ∃ entry ∈ entries [config.consumerEntry] (parse text),
    ((provision config path text).inference.scopes.own? entry.node.id
      importsParameter).isSome = true

/-- A module with such an entry function declares to consume a capability. -/
def Consumes (config : Config) (read : String → Option String) (path name : String) : Prop :=
  ∃ text names, read path = some text ∧
    (declaration .consumes config.entryNames (parse text)).names? = some names ∧ name ∈ names ∧
    HasSite config path text

/-- The least set of modules that contains those a session starts with, and with each module the
    providers of what it consumes. -/
inductive Needed (config : Config) (read : String → Option String) (modules start : List String) :
    String → Prop where
  | start {path : String} (hpath : path ∈ start) : Needed config read modules start path
  | provider {consumer name path : String} (hconsumer : Needed config read modules start consumer)
      (hconsumes : Consumes config read consumer name)
      (hoffers : Offers config read modules path name) : Needed config read modules start path

/-- Readable modules below one root, none of which declares what another one does, and each of
    which registers just what it declares. -/
structure Layout (config : Config) (read : String → Option String) (modules : List String)
    (root : String) : Prop where
  extension : '/' ∉ config.moduleExtension.toList
  root : ∀ path ∈ modules, config.modulesRoot? path = some root
  readable : ∀ path ∈ modules, (read path).isSome = true
  unique : ∀ name first second, Offers config read modules first name →
    Offers config read modules second name → first = second
  exact : ∀ path ∈ modules, ∀ text, read path = some text → ∀ name,
    registers config (path, text) name = true ↔ Offers config read modules path name

def declared (config : Config) (read : String → Option String) (path : String) : List String :=
  ((read path).bind fun text =>
    (declaration .provides config.entryNames (parse text)).names?).getD []

/-- The keys under which a module registers providers when it is loaded. -/
def registered (config : Config) (read : String → Option String) (path : String) : List String :=
  ((read path).map fun text => (provision config path text).registry.providers.keys).getD []

theorem offers_iff :
    Offers config read modules path name ↔ path ∈ modules ∧ name ∈ declared config read path := by
  unfold Offers declared
  refine and_congr_right fun _ => ?_
  cases read path with
  | none => simp
  | some text =>
    cases hnames : (declaration .provides config.entryNames (parse text)).names? with
    | none => simp [hnames]
    | some names => simp [hnames]

/-- Whether a workspace is laid out can be looked up. -/
theorem layout_of_declared (hextension : '/' ∉ config.moduleExtension.toList)
    (hpaths : ∀ path ∈ modules, config.modulesRoot? path = some root ∧ (read path).isSome = true)
    (hunique : ∀ first ∈ modules, ∀ second ∈ modules, ∀ name ∈ declared config read first,
      name ∈ declared config read second → first = second)
    (hexact : ∀ path ∈ modules,
      (∀ key ∈ registered config read path,
        key ∈ (declared config read path).map fun name => (CapabilityKey.of name).text) ∧
      ∀ name ∈ declared config read path,
        (CapabilityKey.of name).text ∈ registered config read path) :
    Layout config read modules root := by
  refine ⟨hextension, fun path hpath => (hpaths path hpath).1,
    fun path hpath => (hpaths path hpath).2, ?_, ?_⟩
  · intro name first second hfirst hsecond
    obtain ⟨hfirst, hname⟩ := offers_iff.1 hfirst
    obtain ⟨hsecond, hname'⟩ := offers_iff.1 hsecond
    exact hunique first hfirst second hsecond name hname hname'
  · intro path hpath text hread name
    obtain ⟨hsound, hcomplete⟩ := hexact path hpath
    have hregisters : registers config (path, text) name = true ↔
        (CapabilityKey.of name).text ∈ registered config read path := by
      rw [registered, hread, Option.map_some, Option.getD_some, Keyed.mem_keys_iff]
      rfl
    rw [hregisters, offers_iff]
    refine ⟨fun hkey => ⟨hpath, ?_⟩, fun hname => hcomplete name hname.2⟩
    obtain ⟨other, hother, hsame⟩ := List.mem_map.1 (hsound _ hkey)
    rwa [key_injective hsame] at hother

/-- A laid out workspace and the modules a session starts with. -/
structure Setting (config : Config) (read : String → Option String) (modules : List String)
    (root : String) (start : List String) : Prop where
  layout : Layout config read modules root
  ending : ∀ path ∈ modules, config.moduleExtension.toList <:+ path.toList
  starts : ∀ path ∈ start, path ∈ modules

theorem Needed.mem (h : Needed config read modules start path)
    (hsetting : Setting config read modules root start) : path ∈ modules := by
  cases h with
  | start hpath => exact hsetting.starts path hpath
  | provider _ _ hoffers => exact hoffers.1

/-- The derived table leads every consumer from a capability to the module that declares it. -/
theorem Setting.modulePath? (h : Setting config read modules root start) {consumer : String}
    (hconsumer : consumer ∈ modules) (hoffers : Offers config read modules path name) :
    config.modulePath? consumer (relativePath config root path) = some path := by
  have hmem := hoffers.1
  unfold Config.modulePath?
  rw [h.layout.root consumer hconsumer, Option.map_some,
    append_relativePath (h.layout.root path hmem) (h.ending path hmem) h.layout.extension]

end

theorem resolve_eq_found_iff {table : PathTable} {paths : CapabilityPaths} {relative : String}
    (h : table.paths? = some paths) :
    table.resolve name = .found relative ↔ paths.get? name = some relative := by
  simp only [PathTable.resolve, h]
  cases paths.get? name with
  | none => simp
  | some found => simp

theorem resolve_eq_missing {table : PathTable} {paths : CapabilityPaths}
    (h : table.paths? = some paths) (hnone : paths.get? name = none) :
    table.resolve name = .missing := by
  simp only [PathTable.resolve, h, hnone]

/-! ### Queueing the start -/

/-- Files that are queued from disk. -/
theorem queueAll_eq_queueing (program : Program) (paths : List String) :
    ∃ more, queueAll program paths = program.queueing more ∧
      ∀ pending ∈ more, pending.text = none ∧ pending.path ∈ paths := by
  induction paths generalizing program with
  | nil => exact ⟨[], (queueing_nil program).symm, fun _ h => by cases h⟩
  | cons path rest ih =>
    have hfirst : ∃ more, (program.addFile path none none).2 = program.queueing more ∧
        ∀ pending ∈ more, pending.text = none ∧ pending.path = path := by
      unfold Program.addFile
      split
      · exact ⟨[], (queueing_nil program).symm, fun _ h => by cases h⟩
      split
      · exact ⟨[], (queueing_nil program).symm, fun _ h => by cases h⟩
      · exact ⟨[⟨path, none, none⟩], rfl, by simp⟩
    obtain ⟨first, hfirst, hasked⟩ := hfirst
    obtain ⟨more, hmore, hrest⟩ := ih (program.queueing first)
    refine ⟨first ++ more, ?_, ?_⟩
    · change queueAll (program.addFile path none none).2 rest = _
      rw [hfirst, hmore, queueing_queueing]
    · intro pending hpending
      rcases List.mem_append.1 hpending with hpending | hpending
      · obtain ⟨htext, hpath⟩ := hasked pending hpending
        exact ⟨htext, by simp [hpath]⟩
      · obtain ⟨htext, hpath⟩ := hrest pending hpending
        exact ⟨htext, by simp [hpath]⟩

/-- A file that is queued from disk is queued then, unless it is loaded or has failed. -/
theorem known_queueAll (program : Program) {paths : List String} (hpath : path ∈ paths) :
    (queueAll program paths).isLoaded path = true ∨ (queueAll program paths).isQueued path = true ∨
      (queueAll program paths).hasFailed path = true := by
  induction paths generalizing program with
  | nil => cases hpath
  | cons first rest ih =>
    rcases List.mem_cons.1 hpath with rfl | hpath
    · obtain ⟨more, hmore, _⟩ := queueAll_eq_queueing (program.addFile path none none).2 rest
      change (queueAll (program.addFile path none none).2 rest).isLoaded path = true ∨
        (queueAll (program.addFile path none none).2 rest).isQueued path = true ∨
        (queueAll (program.addFile path none none).2 rest).hasFailed path = true
      rw [hmore]
      rcases known_addFile program path none with hloaded | hqueued | hfailed
      · exact Or.inl hloaded
      · refine Or.inr (Or.inl ?_)
        unfold Program.isQueued Program.queueing at *
        rw [List.any_append, hqueued, Bool.true_or]
      · exact Or.inr (Or.inr hfailed)
    · exact ih (program.addFile first none none).2 hpath

/-! ### Between two analyses -/

namespace Engine

variable {mail : Mail} {engine : Engine Installed} {resolver : ResolverPlugin}
  {texts : List (String × String)}

section

variable [Parser]

theorem Works.queueAll {kept : List (String × String) → Work → Prop} {others : Nat}
    (h : Works config kept others texts engine resolver) (hkept : Invariant config kept)
    (paths : List String) :
    Works config kept others texts
      { engine with program := CommandLine.queueAll engine.program paths } resolver := by
  induction paths generalizing engine with
  | nil => exact h
  | cons path rest ih => exact ih (h.addFile hkept.toMaintained path none none)

/-- A session that has loaded only needed modules, with the texts they have on disk. -/
structure Gathers (config : Config) (read : String → Option String) (modules start : List String)
    (mail : Mail) (texts : List (String × String)) (engine : Engine Installed)
    (resolver : ResolverPlugin) : Prop where
  works : Works config (Chronicle config) 0 texts engine resolver
  table : (resolver.table.poll mail).paths? = some (deriveTable config read modules)
  textless : ∀ pending ∈ engine.program.queue, pending.text = none
  loaded : ∀ text ∈ texts, read text.1 = some text.2 ∧ Needed config read modules start text.1

/-- Before and after each analysis, needed modules are queued besides, those the session started
    with are loaded or queued, and the resolver works. -/
structure Stage (config : Config) (read : String → Option String) (modules start : List String)
    (mail : Mail) (texts : List (String × String)) (engine : Engine Installed)
    (resolver : ResolverPlugin) : Prop
    extends Gathers config read modules start mail texts engine resolver where
  enabled : (resolver.poll mail).isEnabled = true
  queued : ∀ path ∈ engine.program.queued, Needed config read modules start path
  failed : engine.program.failed = []
  begun : ∀ path ∈ start, path ∈ texts.map Prod.fst ∨ path ∈ engine.program.queued

/-- The loaded files are those whose texts were loaded. -/
theorem Gathers.isLoaded_iff (h : Gathers config read modules start mail texts engine resolver) :
    engine.program.isLoaded path = true ↔ path ∈ texts.map Prod.fst := by
  constructor
  · intro hloaded
    obtain ⟨loads, rfl, hrecorded⟩ := h.works.holds
    obtain ⟨loaded, hget⟩ := Option.isSome_iff_exists.1 hloaded
    obtain ⟨load, hload, _⟩ := hrecorded.file path loaded hget
    obtain ⟨hmem, rfl⟩ := text_of_lastLoad hload
    exact List.mem_map.2 ⟨load.text, List.mem_map.2 ⟨load, hmem, rfl⟩, rfl⟩
  · intro hmem
    rcases h.works.present path hmem with hloaded | ⟨pending, hpending, _, htext⟩
    · exact hloaded
    · rw [h.textless pending hpending] at htext
      cases htext

/-- Loaded modules are needed. -/
theorem Gathers.needed (h : Gathers config read modules start mail texts engine resolver)
    (hloaded : engine.program.isLoaded path = true) : Needed config read modules start path := by
  obtain ⟨text, htext, rfl⟩ := List.mem_map.1 (h.isLoaded_iff.1 hloaded)
  exact (h.loaded text htext).2

/-- What a session has of a loaded module is its text on disk and what inference finds in that. -/
theorem Gathers.file (h : Gathers config read modules start mail texts engine resolver)
    (hloaded : engine.program.isLoaded path = true) :
    ∃ text, read path = some text ∧
      engine.program.file? path = some (.ofText path text) ∧
      (sites config engine.program path (parse text) ≠ [] ↔ HasSite config path text) := by
  obtain ⟨loads, hloads, hrecorded⟩ := h.works.holds
  obtain ⟨loaded, hget⟩ := Option.isSome_iff_exists.1 hloaded
  obtain ⟨load, hload, hsource, _⟩ := hrecorded.file path loaded hget
  obtain ⟨hmem, hpath⟩ := text_of_lastLoad hload
  have htext : load.text ∈ texts := by
    rw [← hloads]
    exact List.mem_map.2 ⟨load, hmem, rfl⟩
  refine ⟨load.text.2, hpath ▸ (h.loaded load.text htext).1, file?_of_get? hget hsource, ?_⟩
  rw [ne_eq, sites_eq_nil_iff, HasSite]
  push Not
  refine exists_congr fun entry => and_congr_right fun _ => ?_
  have hlocal : engine.program.localValue? path entry.node.id importsParameter =
      ((load.provided config).inference.scopes.own? entry.node.id importsParameter).map
        (·.move load.shift) := hrecorded.localValue? hget hload entry.node.id importsParameter
  rw [hlocal, ← Option.isSome_iff_ne_none, Option.isSome_map, Load.provided, hpath]

/-- What the loaded modules lack is needed. -/
theorem Gathers.needed_of_wanted (h : Gathers config read modules start mail texts engine resolver)
    (hsetting : Setting config read modules root start) {pending : PendingFile}
    (hwanted : Wanted config mail (resolver.work engine.program) pending) :
    Needed config read modules start pending.path := by
  obtain ⟨consumer, text, names, name, relative, hfile, hnames, hsites, hname, _, hfound, hpath,
    _⟩ := hwanted
  obtain ⟨loaded, hloaded, _⟩ := Option.map_eq_some_iff.1 hfile
  have hisLoaded : engine.program.isLoaded consumer = true :=
    Option.isSome_iff_exists.2 ⟨loaded, hloaded⟩
  have hneeded := h.needed hisLoaded
  obtain ⟨other, hread, hfile', hsite⟩ := h.file hisLoaded
  obtain rfl : text = other := by
    have hsame := hfile.symm.trans hfile'
    exact congrArg SourceFile.text (Option.some.inj hsame)
  have hconsumes : Consumes config read consumer name :=
    ⟨text, names, hread, hnames, hname, hsite.1 hsites⟩
  obtain ⟨provider, hoffers, rfl⟩ := (get?_deriveTable hsetting.layout.root
    hsetting.layout.unique).1 ((resolve_eq_found_iff h.table).1 hfound)
  rw [hsetting.modulePath? (hneeded.mem hsetting) hoffers] at hpath
  obtain rfl := Option.some.inj hpath
  exact .provider hneeded hconsumes hoffers

/-- What is queued is loaded by the next analysis. -/
theorem Stage.mem_texts (h : Stage config read modules start mail texts engine resolver)
    (hsetting : Setting config read modules root start) (hqueued : path ∈ engine.program.queued) :
    path ∈ (engine.program.texts read).map Prod.fst := by
  obtain ⟨pending, hpending, rfl⟩ := List.mem_map.1 hqueued
  have hmem := (h.queued _ hqueued).mem hsetting
  obtain ⟨text, hread⟩ := Option.isSome_iff_exists.1 (hsetting.layout.readable _ hmem)
  refine List.mem_map.2 ⟨(pending.path, text), List.mem_filterMap.2 ⟨pending, hpending, ?_⟩, rfl⟩
  rw [h.textless pending hpending, Option.none_or, hread]
  rfl

/-- An analysis loads what is queued, queues what is needed besides, and leaves nothing to do. -/
theorem Stage.analyze (h : Stage config read modules start mail texts engine resolver)
    (hsetting : Setting config read modules root start) :
    ∃ analyzed, Stage config read modules start mail (texts ++ engine.program.texts read)
        (engine.analyze read mail).2 analyzed ∧
      Complete config mail (analyzed.work (engine.analyze read mail).2.program) ∧
      ∀ pending ∈ (engine.analyze read mail).2.program.queue,
        Wanted config mail (analyzed.work (engine.analyze read mail).2.program) pending := by
  obtain ⟨analyzed, more, hworks, hbecomes, _, htable, hcomplete, _, hdone⟩ :=
    h.works.analyze (invariant_chronicle config).toMaintained read h.enabled
  obtain ⟨rfl, hwanted, hfailed⟩ := hdone rfl
  have hgathers : Gathers config read modules start mail (texts ++ engine.program.texts read)
      (engine.analyze read mail).2 analyzed := by
    refine ⟨hworks, ?_, ?_, ?_⟩
    · rw [htable]
      exact h.table
    · intro pending hpending
      obtain ⟨_, _, _, _, _, _, _, _, _, _, _, _, htext⟩ := hwanted pending hpending
      exact htext
    · intro text htext
      rcases List.mem_append.1 htext with htext | htext
      · exact h.loaded text htext
      obtain ⟨pending, hpending, hsome⟩ := List.mem_filterMap.1 htext
      rw [h.textless pending hpending, Option.none_or] at hsome
      obtain ⟨found, hread, rfl⟩ := Option.map_eq_some_iff.1 hsome
      exact ⟨hread, h.queued _ (List.mem_map.2 ⟨pending, hpending, rfl⟩)⟩
  refine ⟨analyzed, ⟨hgathers, ?_, ?_, ?_, ?_⟩, hcomplete, hwanted⟩
  · rw [hbecomes.isEnabled_polled]
    exact h.enabled
  · intro path hpath
    obtain ⟨pending, hpending, rfl⟩ := List.mem_map.1 hpath
    exact hgathers.needed_of_wanted hsetting (hwanted pending hpending)
  · rw [List.eq_nil_iff_forall_not_mem]
    intro path hpath
    rcases hfailed path hpath with hbefore | ⟨pending, hpending, hnone⟩
    · rw [h.failed] at hbefore
      cases hbefore
    · have hneeded := h.queued _ (List.mem_map.2 ⟨pending, hpending, rfl⟩)
      have hreadable := hsetting.layout.readable _ (hneeded.mem hsetting)
      rw [(Option.or_eq_none_iff.1 hnone).2] at hreadable
      cases hreadable
  · intro path hpath
    left
    rw [List.map_append, List.mem_append]
    rcases h.begun path hpath with hloaded | hqueued
    · exact Or.inl hloaded
    · exact Or.inr (h.mem_texts hsetting hqueued)

/-! ### All analyses -/

def unloaded (modules : List String) (program : Program) : List String :=
  modules.filter fun path => !program.isLoaded path

omit [Parser] in
/-- Loading only removes modules from those that are not loaded. -/
theorem length_unloaded_lt {before after : Program}
    (hkept : ∀ path, before.isLoaded path = true → after.isLoaded path = true)
    (hmem : path ∈ modules) (hbefore : before.isLoaded path = false)
    (hafter : after.isLoaded path = true) :
    (unloaded modules after).length < (unloaded modules before).length := by
  have hsplit : unloaded modules after =
      (unloaded modules before).filter fun path => !after.isLoaded path := by
    unfold unloaded
    rw [List.filter_filter]
    congr 1
    funext other
    cases hother : before.isLoaded other with
    | false => simp
    | true => simp [hkept other hother]
  rw [hsplit, List.length_filter_lt_length_iff_exists]
  exact ⟨path, List.mem_filter.2 ⟨hmem, by simp [hbefore]⟩, by simp [hafter]⟩

/-- Where something was queued, an analysis loads a module. -/
theorem Stage.length_unloaded_analyze
    (h : Stage config read modules start mail texts engine resolver)
    (hsetting : Setting config read modules root start) (hqueue : engine.program.queue ≠ []) :
    (unloaded modules (engine.analyze read mail).2.program).length <
      (unloaded modules engine.program).length := by
  obtain ⟨analyzed, hanalyzed, _, _⟩ := h.analyze hsetting
  obtain ⟨pending, hpending⟩ := List.exists_mem_of_ne_nil _ hqueue
  have hqueued : pending.path ∈ engine.program.queued := List.mem_map.2 ⟨pending, hpending, rfl⟩
  refine length_unloaded_lt ?_ ((h.queued _ hqueued).mem hsetting)
    (h.works.orderly.unloaded _ hqueued) ?_
  · intro path hloaded
    refine hanalyzed.isLoaded_iff.2 ?_
    rw [List.map_append]
    exact List.mem_append_left _ (h.isLoaded_iff.1 hloaded)
  · refine hanalyzed.isLoaded_iff.2 ?_
    rw [List.map_append]
    exact List.mem_append_right _ (h.mem_texts hsetting hqueued)

/-- A session that was given nothing finds nothing to load. -/
theorem Stage.analyze_idle (h : Stage config read modules start mail texts engine resolver)
    (hsetting : Setting config read modules root start) (hqueue : engine.program.queue = [])
    (htexts : texts = []) : (engine.analyze read mail).2.program.queue = [] := by
  obtain ⟨analyzed, hanalyzed, _, hwanted⟩ := h.analyze hsetting
  have hnone : texts ++ engine.program.texts read = [] := by
    unfold Program.texts
    rw [htexts, hqueue]
    rfl
  rw [hnone] at hanalyzed
  rw [List.eq_nil_iff_forall_not_mem]
  intro pending hpending
  obtain ⟨consumer, _, _, _, _, hfile, _⟩ := hwanted pending hpending
  obtain ⟨loaded, hloaded, _⟩ := Option.map_eq_some_iff.1 hfile
  have hmem := hanalyzed.isLoaded_iff.1 (Option.isSome_iff_exists.2 ⟨loaded, hloaded⟩)
  cases hmem

theorem analyzeAll_succ (read : String → Option String) (mail : Mail) (engine : Engine Installed)
    (more : Nat) :
    ((engine.analyzeAll read mail (more + 1)).1, (engine.analyzeAll read mail (more + 1)).2.2) =
      if (engine.analyze read mail).2.program.queue = [] then (1, (engine.analyze read mail).2)
      else (((engine.analyze read mail).2.analyzeAll read mail more).1 + 1,
        ((engine.analyze read mail).2.analyzeAll read mail more).2.2) := by
  have hqueued : (engine.analyze read mail).1.queued =
      (engine.analyze read mail).2.program.queue.length := rfl
  simp only [analyzeAll, hqueued, beq_iff_eq, List.length_eq_zero_iff]
  split
  · rfl
  · rfl

/-- As many further analyses as there are modules to be loaded are enough. -/
theorem Stage.analyzeAll (h : Stage config read modules start mail texts engine resolver)
    (hsetting : Setting config read modules root start) {limit : Nat}
    (hlimit : (unloaded modules engine.program).length ≤ limit)
    (hidle : engine.program.queue = [] → texts = []) :
    ∃ texts' closed, Stage config read modules start mail texts'
        (engine.analyzeAll read mail limit).2.2 closed ∧
      Complete config mail (closed.work (engine.analyzeAll read mail limit).2.2.program) ∧
      (engine.analyzeAll read mail limit).2.2.program.queue = [] ∧
      (engine.analyzeAll read mail limit).1 ≤ (unloaded modules engine.program).length + 1 := by
  induction limit generalizing engine resolver texts with
  | zero =>
    obtain ⟨analyzed, hanalyzed, hcomplete, hwanted⟩ := h.analyze hsetting
    have hqueue : engine.program.queue = [] := by
      by_contra hqueue
      have hfewer := h.length_unloaded_analyze hsetting hqueue
      omega
    exact ⟨_, analyzed, hanalyzed, hcomplete, h.analyze_idle hsetting hqueue (hidle hqueue),
      Nat.le_add_left _ _⟩
  | succ limit ih =>
    obtain ⟨analyzed, hanalyzed, hcomplete, hwanted⟩ := h.analyze hsetting
    have hsucc := analyzeAll_succ read mail engine limit
    split at hsucc
    · rename_i hempty
      obtain ⟨hpasses, hengine⟩ := Prod.mk.inj hsucc
      rw [hpasses, hengine]
      exact ⟨_, analyzed, hanalyzed, hcomplete, hempty, Nat.le_add_left _ _⟩
    · rename_i hmore
      obtain ⟨hpasses, hengine⟩ := Prod.mk.inj hsucc
      have hqueue : engine.program.queue ≠ [] :=
        fun hqueue => hmore (h.analyze_idle hsetting hqueue (hidle hqueue))
      have hfewer := h.length_unloaded_analyze hsetting hqueue
      obtain ⟨texts', closed, hclosed, hcomplete', hempty, hle⟩ :=
        ih hanalyzed (by omega) (fun hnone => absurd hnone hmore)
      rw [hpasses, hengine]
      exact ⟨texts', closed, hclosed, hcomplete', hempty, by omega⟩

/-! ### The closure -/

/-- A session has loaded just what is needed and resolved what it consumes. -/
structure Closed (config : Config) (read : String → Option String) (modules start : List String)
    (state : State) (program : Program) : Prop where
  /-- Nothing is left to load, and nothing has failed. -/
  queue : program.queue = []
  failed : program.failed = []
  /-- The loaded files are the needed modules. -/
  loaded : ∀ path, program.isLoaded path = true ↔ Needed config read modules start path
  /-- A consumer is bound to what the providing module has registered. -/
  resolved : ∀ consumer name provider, program.isLoaded consumer = true →
    Consumes config read consumer name → Offers config read modules provider name →
    ∃ binding entry, state.binding? consumer = some binding ∧
      state.registry.provider? name = some entry ∧ entry.origin = some provider ∧
      binding.entries.get? name = some (some entry.type)
  /-- A name that no module provides is bound to nothing, and that was reported. -/
  unresolved : ∀ consumer name, program.isLoaded consumer = true →
    Consumes config read consumer name → (∀ provider, ¬ Offers config read modules provider name) →
    state.warnedAbout name = true ∧ ∃ binding, state.binding? consumer = some binding ∧
      binding.entries.get? name = some none

/-- What is registered comes from the module that declares it, which is loaded. -/
theorem Gathers.provider (h : Gathers config read modules start mail texts engine resolver)
    (hsetting : Setting config read modules root start) {entry : ProviderEntry}
    (hentry : resolver.state.registry.provider? name = some entry) :
    ∃ provider, entry.origin = some provider ∧ Offers config read modules provider name ∧
      engine.program.isLoaded provider = true := by
  obtain ⟨loads, hloads, hrecorded⟩ := h.works.holds
  have hregistry : resolver.state.registry.provider? name = _ := hrecorded.registry name
  rw [hregistry] at hentry
  obtain ⟨load, hlatest, hmoved⟩ := Option.bind_eq_some_iff.1 hentry
  obtain ⟨own, hown, rfl⟩ := Option.map_eq_some_iff.1 hmoved
  have hmem : load ∈ loads := List.mem_reverse.1 (List.mem_of_find?_eq_some hlatest)
  have htext : load.text ∈ texts := by
    rw [← hloads]
    exact List.mem_map.2 ⟨load, hmem, rfl⟩
  obtain ⟨hread, hneeded⟩ := h.loaded load.text htext
  refine ⟨load.text.1, ((hrecorded.stands load hmem).provided name own hown).2, ?_, ?_⟩
  · exact (hsetting.layout.exact _ (hneeded.mem hsetting) _ hread name).1
      (Option.isSome_iff_exists.2 ⟨own, hown⟩)
  · exact h.isLoaded_iff.2 (List.mem_map.2 ⟨load.text, htext, rfl⟩)

/-- A loaded module has registered what it declares. -/
theorem Gathers.registered (h : Gathers config read modules start mail texts engine resolver)
    (hsetting : Setting config read modules root start)
    (hloaded : engine.program.isLoaded path = true)
    (hoffers : Offers config read modules path name) :
    (resolver.state.registry.provider? name).isSome = true := by
  obtain ⟨loads, hloads, hrecorded⟩ := h.works.holds
  obtain ⟨text, htext, rfl⟩ := List.mem_map.1 (h.isLoaded_iff.1 hloaded)
  rw [← hloads] at htext
  obtain ⟨load, hmem, rfl⟩ := List.mem_map.1 htext
  obtain ⟨hread, hneeded⟩ := h.loaded load.text (hloads ▸ htext)
  exact hrecorded.isSome_provider? hmem
    ((hsetting.layout.exact _ (hneeded.mem hsetting) _ hread name).2 hoffers)

/-- A consumer is bound to what is registered, and what is not was looked for. -/
theorem Gathers.bound (h : Gathers config read modules start mail texts engine resolver)
    (hcomplete : Complete config mail (resolver.work engine.program))
    (hloaded : engine.program.isLoaded path = true) (hconsumes : Consumes config read path name) :
    (∃ binding, resolver.state.binding? path = some binding ∧
      binding.entries.get? name = some (resolver.state.registry.lookup? name)) ∧
    (resolver.state.registry.lookup? name = none →
      Handled config mail name path (resolver.work engine.program)) := by
  obtain ⟨text, names, hread, hnames, hname, hsite⟩ := hconsumes
  obtain ⟨other, hother, hfile, hsites⟩ := h.file hloaded
  rw [hread] at hother
  obtain rfl := Option.some.inj hother
  obtain ⟨object, hbound⟩ := (hcomplete.of_file? hfile).bound names hnames (hsites.2 hsite)
  refine ⟨⟨_, hbound.binding, ?_⟩, hbound.handled name hname⟩
  rw [ImportsBinding.get?_ofNames, if_pos hname]
  rfl

/-- Once nothing is queued, the provider of what a loaded module consumes has registered it. -/
theorem Stage.isSome_provider? (h : Stage config read modules start mail texts engine resolver)
    (hsetting : Setting config read modules root start)
    (hcomplete : Complete config mail (resolver.work engine.program))
    (hqueue : engine.program.queue = []) {consumer : String}
    (hloaded : engine.program.isLoaded consumer = true)
    (hconsumes : Consumes config read consumer name)
    (hoffers : Offers config read modules path name) :
    (resolver.state.registry.provider? name).isSome = true := by
  cases hlookup : resolver.state.registry.lookup? name with
  | some type =>
    obtain ⟨entry, hentry, _⟩ := Option.map_eq_some_iff.1 hlookup
    exact Option.isSome_iff_exists.2 ⟨entry, hentry⟩
  | none =>
    have hhandled := (h.bound hcomplete hloaded hconsumes).2 hlookup
    have hpaths : resolver.table.paths? = some (deriveTable config read modules) := by
      have hpolled : resolver.table.poll mail = resolver.table := hhandled.polled
      rw [← hpolled]
      exact h.table
    have hfound := (resolve_eq_found_iff hpaths).2
      ((get?_deriveTable hsetting.layout.root hsetting.layout.unique).2 ⟨path, hoffers, rfl⟩)
    have hpath := hsetting.modulePath? ((h.needed hloaded).mem hsetting) hoffers
    refine h.registered hsetting ?_ hoffers
    rcases hhandled.known _ _ hfound hpath with hisLoaded | hqueued | hfailed
    · exact hisLoaded
    · change engine.program.queue.any _ = true at hqueued
      rw [hqueue] at hqueued
      cases hqueued
    · change engine.program.failed.contains path = true at hfailed
      rw [h.failed] at hfailed
      cases hfailed

/-- Once nothing is queued, all that is needed is loaded and resolved. -/
theorem Stage.closed (h : Stage config read modules start mail texts engine resolver)
    (hsetting : Setting config read modules root start)
    (hcomplete : Complete config mail (resolver.work engine.program))
    (hqueue : engine.program.queue = []) :
    Closed config read modules start resolver.state engine.program := by
  have hresolved : ∀ consumer name provider, engine.program.isLoaded consumer = true →
      Consumes config read consumer name → Offers config read modules provider name →
      engine.program.isLoaded provider = true ∧ ∃ entry,
        resolver.state.registry.provider? name = some entry ∧ entry.origin = some provider := by
    intro consumer name provider hloaded hconsumes hoffers
    obtain ⟨entry, hentry⟩ := Option.isSome_iff_exists.1
      (h.isSome_provider? hsetting hcomplete hqueue hloaded hconsumes hoffers)
    obtain ⟨other, horigin, hother, hisLoaded⟩ := h.provider hsetting hentry
    obtain rfl := hsetting.layout.unique name provider other hoffers hother
    exact ⟨hisLoaded, entry, hentry, horigin⟩
  refine ⟨hqueue, h.failed, ?_, ?_, ?_⟩
  · intro path
    refine ⟨h.needed, ?_⟩
    intro hneeded
    induction hneeded with
    | start hpath =>
      rcases h.begun _ hpath with hloaded | hqueued
      · exact h.isLoaded_iff.2 hloaded
      · rw [Program.queued, hqueue] at hqueued
        cases hqueued
    | provider _ hconsumes hoffers ih => exact (hresolved _ _ _ ih hconsumes hoffers).1
  · intro consumer name provider hloaded hconsumes hoffers
    obtain ⟨_, entry, hentry, horigin⟩ := hresolved consumer name provider hloaded hconsumes hoffers
    obtain ⟨⟨binding, hbinding, hget⟩, _⟩ := h.bound hcomplete hloaded hconsumes
    refine ⟨binding, entry, hbinding, hentry, horigin, ?_⟩
    rw [hget, Registry.lookup?, hentry]
    rfl
  · intro consumer name hloaded hconsumes hnobody
    have hlookup : resolver.state.registry.lookup? name = none := by
      rw [Registry.lookup?, Option.map_eq_none_iff, Option.eq_none_iff_forall_ne_some]
      intro entry hentry
      obtain ⟨provider, _, hoffers, _⟩ := h.provider hsetting hentry
      exact hnobody provider hoffers
    obtain ⟨⟨binding, hbinding, hget⟩, hhandled⟩ := h.bound hcomplete hloaded hconsumes
    refine ⟨?_, binding, hbinding, by rw [hget, hlookup]⟩
    have hpaths : resolver.table.paths? = some (deriveTable config read modules) := by
      have hpolled : resolver.table.poll mail = resolver.table := (hhandled hlookup).polled
      rw [← hpolled]
      exact h.table
    refine (hhandled hlookup).missing (resolve_eq_missing hpaths ?_)
    rw [Option.eq_none_iff_forall_ne_some]
    intro relative hrelative
    obtain ⟨provider, hoffers, _⟩ :=
      (get?_deriveTable hsetting.layout.root hsetting.layout.unique).1 hrelative
    exact hnobody provider hoffers

/-- A new session that was given some of the modules. -/
theorem Stage.initial (hhosts : engine.Hosts resolver 0) (hfresh : resolver.Fresh config)
    (hprogram : engine.program = CommandLine.queueAll .initial start)
    (henabled : (resolver.poll mail).isEnabled = true)
    (htable : (resolver.table.poll mail).paths? = some (deriveTable config read modules)) :
    Stage config read modules start mail [] engine resolver := by
  have hworks : Works config (Chronicle config) 0 [] engine resolver := by
    have hempty : Works config (Chronicle config) 0 []
        ({ engine with program := .initial } : Engine Installed) resolver :=
      .start hhosts hfresh rfl (invariant_chronicle config)
    have hqueued := hempty.queueAll (invariant_chronicle config) start
    rwa [← hprogram] at hqueued
  obtain ⟨more, hmore, hasked⟩ := queueAll_eq_queueing .initial start
  have hqueue : engine.program = Program.initial.queueing more := hprogram.trans hmore
  have hmem : ∀ pending ∈ engine.program.queue, pending ∈ more := by
    intro pending hpending
    rw [hqueue] at hpending
    simpa [Program.queueing, Program.initial] using hpending
  refine ⟨⟨hworks, htable, ?_, ?_⟩, henabled, ?_, ?_, ?_⟩
  · exact fun pending hpending => (hasked pending (hmem pending hpending)).1
  · intro text htext
    cases htext
  · intro path hpath
    obtain ⟨pending, hpending, rfl⟩ := List.mem_map.1 hpath
    exact .start (hasked pending (hmem pending hpending)).2
  · rw [hqueue]
    rfl
  · intro path hpath
    right
    have hknown := known_queueAll .initial hpath
    rw [hmore] at hknown
    rw [hqueue]
    rcases hknown with hloaded | hqueued | hfailed
    · cases hloaded
    · exact (Program.isQueued_iff _ _).1 hqueued
    · cases hfailed

/-- Loading on demand computes just what is needed. The modules found below a directory of a disk
    are laid out, and the path table is derived from them. A session that is given some of them and
    analyzed until nothing is queued is analyzed at most once more than there are modules; then
    the needed modules are loaded and no others, what they consume is resolved to its providers,
    and what no module provides is reported. -/
theorem closed_of_analyzeAll {disk : Disk} {top : String} {limit : Nat}
    (hlayout : Layout config disk.read (discover config disk top) root)
    (hstart : ∀ path ∈ start, path ∈ discover config disk top)
    (hhosts : engine.Hosts resolver 0) (hfresh : resolver.Fresh config)
    (hprogram : engine.program = CommandLine.queueAll .initial start)
    (henabled : (resolver.poll mail).isEnabled = true)
    (htable : (resolver.table.poll mail).paths? =
      some (deriveTable config disk.read (discover config disk top)))
    (hlimit : (discover config disk top).length ≤ limit) :
    (engine.analyzeAll disk.read mail limit).1 ≤ (discover config disk top).length + 1 ∧
    ∃ closed, (engine.analyzeAll disk.read mail limit).2.2.resolver? = some closed ∧
      Closed config disk.read (discover config disk top) start closed.state
        (engine.analyzeAll disk.read mail limit).2.2.program := by
  have hsetting : Setting config disk.read (discover config disk top) root start :=
    ⟨hlayout, fun _ => suffix_of_mem_discover, hstart⟩
  have hall : (unloaded (discover config disk top) engine.program).length ≤
      (discover config disk top).length := List.length_filter_le ..
  obtain ⟨texts, closed, hstage, hcomplete, hqueue, hpasses⟩ :=
    (Stage.initial hhosts hfresh hprogram henabled htable).analyzeAll hsetting
      (Nat.le_trans hall hlimit) fun _ => rfl
  exact ⟨Nat.le_trans hpasses (Nat.succ_le_succ hall), closed, hstage.works.hosts.resolver?,
    hstage.closed hsetting hcomplete hqueue⟩

end

def workshop : Disk :=
  ⟨.folder [("plugins", .folder [
    ("app.js", .file (some
      "main.consumes = [\"net\"]; function main(options, imports, register) \x7b\x7d")),
    ("log.js", .file (some "main.provides = []")),
    ("net.js", .file (some ("main.provides = [\"net\"]; " ++
      "function main(options, imports, register) \x7b register(null, \x7b net: 1 \x7d); \x7d")))])],
    []⟩

theorem discover_workshop : discover .default workshop "/" =
    ["/plugins/app.js", "/plugins/log.js", "/plugins/net.js"] := by
  rw [discover_of_sorted (by decide +kernel)]
  decide +kernel

theorem names_workshop : (discover .default workshop "/").map
    (fun path => (declared .default workshop.read path, registered .default workshop.read path)) =
      [([], []), ([], []), (["net"], ["_net"])] := by
  rw [discover_workshop]
  decide +kernel

theorem layout_workshop : Layout .default workshop.read (discover .default workshop "/") "/" := by
  have hnames := names_workshop
  rw [discover_workshop] at hnames ⊢
  simp only [List.map_cons, List.map_nil, List.cons.injEq, Prod.mk.injEq, and_true] at hnames
  obtain ⟨⟨hd1, hr1⟩, ⟨hd2, hr2⟩, hd3, hr3⟩ := hnames
  apply layout_of_declared
  · decide
  · decide +kernel
  · simp [hd1, hd2, hd3]
  · simp [hd1, hd2, hd3, hr1, hr2, hr3]
    decide

def workshopResolver : ResolverPlugin :=
  ⟨.default, .initial, .fixed (deriveTable .default workshop.read (discover .default workshop "/")),
    none⟩

def workshopEngine : Engine Installed :=
  ⟨CommandLine.queueAll .initial ["/plugins/app.js"], [.resolver workshopResolver]⟩

theorem closed_workshop :
    (workshopEngine.analyzeAll workshop.read [] 3).1 ≤ (discover .default workshop "/").length + 1 ∧
    ∃ closed, (workshopEngine.analyzeAll workshop.read [] 3).2.2.resolver? = some closed ∧
      Closed .default workshop.read (discover .default workshop "/") ["/plugins/app.js"]
        closed.state (workshopEngine.analyzeAll workshop.read [] 3).2.2.program := by
  refine @closed_of_analyzeAll .default ["/plugins/app.js"] "/" [] workshopEngine
    workshopResolver _ workshop "/" 3 ?_ ?_ ⟨[], [], rfl, rfl⟩
    ⟨rfl, rfl, fun _ hreply => by cases hreply⟩ rfl rfl rfl ?_
  · exact layout_workshop
  · rw [discover_workshop]
    simp
  · rw [discover_workshop]
    exact Nat.le_refl 3

end Engine

end Capabilities.Session
