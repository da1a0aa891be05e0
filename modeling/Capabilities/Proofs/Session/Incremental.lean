import Capabilities.Proofs.Session.Analysis
import Capabilities.Proofs.Session.Renaming
import Capabilities.Script.Parse

/-!
# Incremental analysis agrees with analysis from scratch

A session that was edited and analyzed any number of times ends with what a new session ends with
that loads the files as they are now, in their present order, and is analyzed once. Ids differ,
since the edited session's store still has all that was ever loaded.
-/

namespace Capabilities.Session

open Host Script Resolver Capabilities.Types Capabilities.Module

/-- The files of a session, added with their texts in the order in which they are loaded. -/
def Program.reload (program : Program) : List Step :=
  program.files.entries.map fun entry => .addFile entry.1 (some entry.2.source.text) none

/-- Two sessions ended with the same result, up to a renaming of types. -/
structure SameResult (config : Config) (first second : Work) : Prop where
  /-- The same files are loaded in the same order. -/
  files : second.program.fileNames = first.program.fileNames
  /-- The same capabilities are registered, by the same files, with the same types. -/
  registry : ∃ renames, Renaming renames first.program.store second.program.store ∧
    ∀ name, Option.Rel (fun entry other => entry.origin = other.origin ∧
      renames entry.type other.type) (first.state.registry.provider? name)
      (second.state.registry.provider? name)
  /-- The files are bound to the same names, of which the same are resolved. -/
  bindings : ∀ path ∈ first.program.fileNames,
    (second.state.binding? path).map (fun binding => (binding.declared, binding.resolved)) =
      (first.state.binding? path).map fun binding => (binding.declared, binding.resolved)
  /-- The consumers' parameters enumerate the same names. -/
  enumerations : ∀ path source, first.program.file? path = some source →
    ∀ entry ∈ entries [config.consumerEntry] source.root,
      (second.program.localValue? path entry.node.id importsParameter).map
          second.program.store.memberNames =
        (first.program.localValue? path entry.node.id importsParameter).map
          first.program.store.memberNames

variable {config : Config} {loads others : List Load} {load twin : Load} {work after : Work}
  {mail other : Mail} {path text name : String}

/-! ### The registries -/

/-- The last load that registered a capability is the last one of its path. -/
theorem lastLoad_of_latest [Parser] (h : Reregisters config (loads.map Load.text))
    (hlatest : latest config loads name = some load) :
    lastLoad loads load.text.1 = some load ∧ registers config load.text name = true := by
  induction loads using List.reverseRecOn with
  | nil => cases hlatest
  | append_singleton loads last ih =>
    rw [List.map_append, List.map_singleton] at h
    rw [latest_append] at hlatest
    rw [lastLoad_append]
    split at hlatest
    · rename_i hlast
      cases hlatest
      exact ⟨if_pos rfl, hlast⟩
    · rename_i hlast
      obtain ⟨hload, hregisters⟩ := ih h.initial hlatest
      have hne : last.text.1 ≠ load.text.1 := by
        intro heq
        have htext : lastText (loads.map Load.text) last.text.1 = some load.text.2 := by
          rw [← map_lastLoad, heq, hload]
          rfl
        refine hlast (h.last htext ?_)
        rw [heq]
        exact hregisters
      rw [if_neg hne]
      exact ⟨hload, hregisters⟩

/-- Loads that come to the same register the same. -/
theorem Recorded.registry_rel [Parser] (h : Recorded config loads work)
    (h' : Recorded config others after)
    (hagree : Agree config (loads.map Load.text) (others.map Load.text)) (name : String) :
    Option.Rel (fun entry other => entry.origin = other.origin ∧
      Corresponds config loads others entry.type other.type) (work.state.registry.provider? name)
      (after.state.registry.provider? name) := by
  have hsame : (latest config others name).map Load.text =
      (latest config loads name).map Load.text := by
    rw [map_latest, map_latest, hagree.sources]
  rw [h.registry, h'.registry]
  cases hlatest : latest config loads name with
  | none =>
    rw [hlatest] at hsame
    rw [Option.map_eq_none_iff.1 hsame]
    exact .none
  | some load =>
    rw [hlatest] at hsame
    obtain ⟨twin, hlatest', htext⟩ := Option.map_eq_some_iff.1 hsame
    obtain ⟨hload, hregisters⟩ := lastLoad_of_latest hagree.reregisters hlatest
    obtain ⟨htwin, _⟩ := lastLoad_of_latest hagree.reregisters_other hlatest'
    obtain ⟨entry, hentry⟩ := Option.isSome_iff_exists.1 hregisters
    have hprovided : (load.provided config).registry.provider? name = some entry := hentry
    rw [hlatest', Option.bind_some, Option.bind_some, Load.provided_of_text htext, hprovided]
    refine .some ⟨rfl, load.text.1, load, twin, entry.type, hload, ?_, htext.symm, ?_, rfl, rfl⟩
    · rw [← htext]
      exact htwin
    · exact ((h.stands load (text_of_lastLoad hload).1).provided name entry hprovided).1

theorem isSome_lookup?_of_rel {first second : Registry} {renames : TypeId → TypeId → Prop}
    (h : Option.Rel (fun entry other => entry.origin = other.origin ∧
      renames entry.type other.type) (first.provider? name) (second.provider? name)) :
    (second.lookup? name).isSome = (first.lookup? name).isSome := by
  unfold Registry.lookup?
  generalize first.provider? name = entry at h
  generalize second.provider? name = other at h
  cases h with
  | none => rfl
  | some _ => rfl

/-! ### The consumers -/

theorem sites_eq_nil_iff (config : Config) (program : Program) (path : String) (root : Node) :
    sites config program path root = [] ↔ ∀ entry ∈ entries [config.consumerEntry] root,
      program.localValue? path entry.node.id importsParameter = none := by
  unfold sites
  rw [List.filterMap_eq_nil_iff]
  refine forall₂_congr fun entry _ => ?_
  unfold ConsumerSite.locate?
  cases hlocal : program.localValue? path entry.node.id importsParameter with
  | none => simp [hlocal]
  | some value => simp [hlocal]

section

variable [Parser]

/-- A value that was left alone enumerates what it enumerates for the file on its own. -/
theorem Load.Untouched.memberNames {value : ValueId} (h : load.Untouched config work value)
    (hstands : load.Stands config work) :
    work.program.store.memberNames (value.move load.shift) =
      (((load.provided config).store.typesOf value).flatMap fun type =>
        (((load.provided config).store.object? type).map (·.members.keys)).getD []).foldl
          Store.insertNew [] := by
  have hkeys : ∀ type ∈ (load.provided config).store.typesOf value,
      ((work.program.store.object? (type.move load.shift)).map (·.members.keys)).getD [] =
        (((load.provided config).store.object? type).map (·.members.keys)).getD [] := by
    intro type htype
    unfold Store.object?
    rw [hstands.shape type (hstands.sound.held value type htype)]
    cases (load.provided config).store.type? type with
    | none => rfl
    | some shape =>
      cases shape with
      | object object => simp [TypeShape.move, ObjectType.move]
      | function function => rfl
      | primitive kind => rfl
  have htypes := h.types
  have henumeration := h.enumeration
  unfold Store.enumeration? at henumeration
  unfold Store.memberNames
  cases hheld : work.program.store.value? (value.move load.shift) with
  | none =>
    unfold Store.typesOf at htypes
    rw [hheld] at htypes
    have hnone : (load.provided config).store.typesOf value = [] := by
      simpa [Store.typesOf] using htypes.symm
    rw [hnone]
    rfl
  | some held =>
    have hmembers : held.members.keys = [] := by
      rw [List.eq_nil_iff_forall_not_mem]
      intro name hname
      have hsome := (Keyed.mem_keys_iff _ _).1 hname
      have hproperty := h.property name
      simp only [Store.place?, hheld, Option.bind_some] at hproperty
      rw [hproperty] at hsome
      cases hsome
    rw [hheld, Option.bind_some] at henumeration
    rw [Store.typesOf_eq _ hheld] at htypes
    simp only [henumeration, hmembers, htypes, List.nil_append, List.flatMap_map]
    rw [List.flatMap_congr hkeys]

/-- Both sessions have the same variables in a loaded file. -/
theorem Recorded.isSome_localValue? (h : Recorded config loads work)
    (h' : Recorded config others after) {loaded reloaded : LoadedFile}
    (hloaded : work.program.files.get? path = some loaded)
    (hreloaded : after.program.files.get? path = some reloaded)
    (hload : lastLoad loads path = some load) (htwin : lastLoad others path = some twin)
    (htext : load.text = twin.text) (scope : ScopeId) :
    (after.program.localValue? path scope name).isSome =
      (work.program.localValue? path scope name).isSome := by
  rw [h.localValue? hloaded hload, h'.localValue? hreloaded htwin, ← Load.provided_of_text htext]
  cases (load.provided config).inference.scopes.own? scope name <;> rfl

/-- What a file that declares what it consumes is bound to. -/
theorem binding_of_complete {names : List String} (hready : Ready config work)
    (hcomplete : Complete config mail work)
    (hfile : work.program.file? path = some (.ofText path text))
    (hnames : (declaration .consumes config.entryNames (parse text)).names? = some names) :
    (work.state.binding? path).map (fun binding => (binding.declared, binding.resolved)) =
      if sites config work.program path (parse text) = [] then none
      else some (names.eraseDups, names.eraseDups.filter fun name =>
        (work.state.registry.lookup? name).isSome) := by
  split
  · rename_i hnone
    rw [(hready.attached hfile).undeclared (Or.inr hnone)]
    rfl
  · rename_i hne
    obtain ⟨_, hbound⟩ := (hcomplete.of_file? hfile).bound names hnames hne
    rw [hbound.binding, Option.map_some, ImportsBinding.declared_ofNames,
      ImportsBinding.resolved_ofNames]

/-- A session at its end: nothing is left to do, and all that was ever loaded is loaded still. -/
structure Ended (config : Config) (mail : Mail) (loads : List Load) (work : Work) : Prop where
  ready : Ready config work
  complete : Complete config mail work
  recorded : Recorded config loads work
  present : ∀ load ∈ settle (loads.map Load.text), work.program.isLoaded load.1 = true

theorem Ended.texts (h : Ended config mail loads work) :
    (work.program.files.entries.map fun entry => (entry.1, entry.2.source.text)) =
      settle (loads.map Load.text) := by
  rw [h.recorded.texts, List.filter_eq_self]
  exact h.present

theorem Ended.fileNames (h : Ended config mail loads work) :
    work.program.fileNames = (settle (loads.map Load.text)).map Prod.fst := by
  rw [← h.texts, List.map_map]
  rfl

/-- A file with the same text in both sessions, and the loads it comes from. -/
structure Shared (loads others : List Load) (work after : Work) (path text : String)
    (load twin : Load) : Prop where
  last_load : lastLoad loads path = some load
  last_twin : lastLoad others path = some twin
  same : load.text = twin.text
  loaded : ∃ file, work.program.files.get? path = some file ∧ file.source = .ofText path text
  reloaded : ∃ file, after.program.files.get? path = some file ∧ file.source = .ofText path text
  text_eq : load.text.2 = text

theorem Ended.mem_fileNames_iff (h : Ended config mail loads work) :
    path ∈ work.program.fileNames ↔ (lastText (loads.map Load.text) path).isSome = true := by
  rw [h.fileNames]
  exact mem_paths_settle_iff

theorem Ended.shared (h : Ended config mail loads work) (h' : Ended config other others after)
    (hagree : Agree config (loads.map Load.text) (others.map Load.text))
    (hpath : path ∈ work.program.fileNames) :
    ∃ text load twin, Shared loads others work after path text load twin := by
  have hpath' : path ∈ after.program.fileNames := by
    rw [h'.mem_fileNames_iff, hagree.texts]
    exact h.mem_fileNames_iff.1 hpath
  obtain ⟨file, hfile⟩ := Option.isSome_iff_exists.1 ((Keyed.mem_keys_iff _ _).1 hpath)
  obtain ⟨file', hfile'⟩ := Option.isSome_iff_exists.1 ((Keyed.mem_keys_iff _ _).1 hpath')
  obtain ⟨load, hload, hsource, _⟩ := h.recorded.file path file hfile
  obtain ⟨twin, htwin, hsource', _⟩ := h'.recorded.file path file' hfile'
  have htext : load.text.2 = twin.text.2 := by
    have hlast := hagree.texts path
    rw [← map_lastLoad, ← map_lastLoad, hload, htwin] at hlast
    exact (Option.some.inj hlast).symm
  have hsame : load.text = twin.text :=
    Prod.ext ((text_of_lastLoad hload).2.trans (text_of_lastLoad htwin).2.symm) htext
  exact ⟨load.text.2, load, twin, hload, htwin, hsame, ⟨file, hfile, hsource⟩,
    ⟨file', hfile', htext ▸ hsource'⟩, rfl⟩

omit [Parser] in
theorem file?_of_get? {program : Program} {file : LoadedFile} {source : SourceFile}
    (hfile : program.files.get? path = some file) (hsource : file.source = source) :
    program.file? path = some source := by
  unfold Program.file?
  rw [hfile, Option.map_some, hsource]

section

variable (h : Ended config mail loads work) (h' : Ended config other others after)
  (hagree : Agree config (loads.map Load.text) (others.map Load.text))

include h h' hagree

theorem Ended.file?_eq (path : String) : after.program.file? path = work.program.file? path := by
  have hnone : ∀ program : Program, path ∉ program.fileNames → program.file? path = none := by
    intro program hpath
    unfold Program.file?
    rw [Option.map_eq_none_iff, ← Option.not_isSome_iff_eq_none]
    exact fun hsome => hpath ((Keyed.mem_keys_iff _ _).2 hsome)
  by_cases hpath : path ∈ work.program.fileNames
  · obtain ⟨text, load, twin, hshared⟩ := h.shared h' hagree hpath
    obtain ⟨file, hfile, hsource⟩ := hshared.loaded
    obtain ⟨file', hfile', hsource'⟩ := hshared.reloaded
    rw [file?_of_get? hfile hsource, file?_of_get? hfile' hsource']
  · rw [hnone work.program hpath, hnone after.program]
    rw [h'.mem_fileNames_iff, hagree.texts, ← h.mem_fileNames_iff]
    exact hpath

theorem Ended.isSome_lookup?_eq (name : String) :
    (after.state.registry.lookup? name).isSome = (work.state.registry.lookup? name).isSome :=
  isSome_lookup?_of_rel (h.recorded.registry_rel h'.recorded hagree name)

/-- Both sessions have the same consumers. -/
theorem Ended.sites_eq_nil_iff (hpath : path ∈ work.program.fileNames) (root : Node) :
    sites config after.program path root = [] ↔ sites config work.program path root = [] := by
  obtain ⟨text, load, twin, hshared⟩ := h.shared h' hagree hpath
  obtain ⟨file, hfile, -⟩ := hshared.loaded
  obtain ⟨file', hfile', -⟩ := hshared.reloaded
  rw [Session.sites_eq_nil_iff, Session.sites_eq_nil_iff]
  refine forall₂_congr fun entry _ => ?_
  rw [← Option.not_isSome_iff_eq_none, ← Option.not_isSome_iff_eq_none,
    h.recorded.isSome_localValue? h'.recorded hfile hfile' hshared.last_load hshared.last_twin
      hshared.same]

theorem Ended.bindings_eq (hpath : path ∈ work.program.fileNames) :
    (after.state.binding? path).map (fun binding => (binding.declared, binding.resolved)) =
      (work.state.binding? path).map fun binding => (binding.declared, binding.resolved) := by
  obtain ⟨text, load, twin, hshared⟩ := h.shared h' hagree hpath
  obtain ⟨file, hfile, hsource⟩ := hshared.loaded
  obtain ⟨file', hfile', hsource'⟩ := hshared.reloaded
  have hfirst := file?_of_get? hfile hsource
  have hsecond := file?_of_get? hfile' hsource'
  cases hnames : (declaration .consumes config.entryNames (parse text)).names? with
  | none =>
    rw [(h.ready.attached hfirst).undeclared (Or.inl hnames),
      (h'.ready.attached hsecond).undeclared (Or.inl hnames)]
  | some names =>
    rw [binding_of_complete h.ready h.complete hfirst hnames,
      binding_of_complete h'.ready h'.complete hsecond hnames]
    simp only [h.isSome_lookup?_eq h' hagree, h.sites_eq_nil_iff h' hagree hpath]

theorem Ended.enumerations_eq {source : SourceFile}
    (hfound : work.program.file? path = some source) {entry : Entry}
    (hentry : entry ∈ entries [config.consumerEntry] source.root) :
    (after.program.localValue? path entry.node.id importsParameter).map
        after.program.store.memberNames =
      (work.program.localValue? path entry.node.id importsParameter).map
        work.program.store.memberNames := by
  have hpath : path ∈ work.program.fileNames := by
    obtain ⟨loaded, hloaded, _⟩ := Option.map_eq_some_iff.1 hfound
    exact (Keyed.mem_keys_iff _ _).2 (by rw [hloaded]; rfl)
  obtain ⟨text, load, twin, hshared⟩ := h.shared h' hagree hpath
  obtain ⟨file, hfile, hsource⟩ := hshared.loaded
  obtain ⟨file', hfile', hsource'⟩ := hshared.reloaded
  have hfirst := file?_of_get? hfile hsource
  have hsecond := file?_of_get? hfile' hsource'
  rw [hfirst] at hfound
  cases hfound
  have hvalue := h.recorded.localValue? hfile hshared.last_load entry.node.id importsParameter
  have hvalue' := h'.recorded.localValue? hfile' hshared.last_twin entry.node.id importsParameter
  have hprovided : load.provided config = twin.provided config :=
    Load.provided_of_text hshared.same
  rw [← hprovided] at hvalue'
  cases hown : (load.provided config).inference.scopes.own? entry.node.id importsParameter with
  | none =>
    rw [hown] at hvalue hvalue'
    rw [hvalue, hvalue']
    rfl
  | some inner =>
    rw [hown] at hvalue hvalue'
    rw [hvalue, hvalue']
    simp only [Option.map_some, Option.some.injEq]
    cases hnames : (declaration .consumes config.entryNames (parse text)).names? with
    | none =>
      have huntouched := h.recorded.quiet path load (Program.isLoaded_of_get? hfile)
        hshared.last_load (hshared.text_eq ▸ hnames) _ _ _ hown
      have huntouched' := h'.recorded.quiet path twin (Program.isLoaded_of_get? hfile')
        hshared.last_twin (hshared.same ▸ hshared.text_eq ▸ hnames) _ _ _ (hprovided ▸ hown)
      rw [huntouched.memberNames (h.recorded.stands load (text_of_lastLoad hshared.last_load).1),
        huntouched'.memberNames
          (h'.recorded.stands twin (text_of_lastLoad hshared.last_twin).1), ← hprovided]
    | some names =>
      have hsees := Engine.seesImports_of_settled h.ready (h.complete.of_file? hfirst) hfirst
        hnames hentry hvalue
      have hsees' := Engine.seesImports_of_settled h'.ready (h'.complete.of_file? hsecond) hsecond
        hnames hentry hvalue'
      rw [hsees.enumeration, hsees'.enumeration]
      simp only [h.isSome_lookup?_eq h' hagree]

theorem Ended.registry_renamed :
    ∃ renames, Renaming renames work.program.store after.program.store ∧
      ∀ name, Option.Rel (fun entry other => entry.origin = other.origin ∧
        renames entry.type other.type) (work.state.registry.provider? name)
        (after.state.registry.provider? name) :=
  ⟨_, renaming_corresponds h.recorded h'.recorded, h.recorded.registry_rel h'.recorded hagree⟩

end

/-- Sessions that end with the same texts end with the same result. -/
theorem Ended.sameResult (h : Ended config mail loads work) (h' : Ended config other others after)
    (hreload : Reregisters config (loads.map Load.text))
    (hothers : others.map Load.text = settle (loads.map Load.text)) :
    SameResult config work after := by
  have hagree : Agree config (loads.map Load.text) (others.map Load.text) := by
    rw [hothers]
    exact agree_settle hreload
  refine ⟨?_, h.registry_renamed h' hagree, fun path => h.bindings_eq h' hagree,
    fun path source hfound entry => h.enumerations_eq h' hagree hfound⟩
  rw [h'.fileNames, h.fileNames, hothers, settle_of_nodup (nodup_settle _)]

/-! ### Loading everything anew -/

end

def adding (texts : List (String × String)) : List Step :=
  texts.map fun text => .addFile text.1 (some text.2) none

namespace Engine

variable {engine fresh : Engine Installed} {steps : List Step} {read again : String → Option String}
  {resolver newest : ResolverPlugin} {others : Nat}

section

variable [Parser]

theorem history_adding (engine : Engine Installed) (texts : List (String × String)) :
    engine.history (adding texts) = [] := by
  induction texts generalizing engine with
  | nil => rfl
  | cons text rest ih => exact ih (engine.step (.addFile text.1 (some text.2) none))

/-- Texts of paths that are neither loaded nor queued are queued in order. -/
theorem queue_adding {texts : List (String × String)}
    (hunloaded : ∀ text ∈ texts, engine.program.isLoaded text.1 = false)
    (hnodup : (engine.program.queued ++ texts.map Prod.fst).Nodup) :
    (engine.run (adding texts)).program.queue =
      engine.program.queue ++ texts.map fun text => ⟨text.1, some text.2, none⟩ := by
  induction texts generalizing engine with
  | nil => exact (List.append_nil _).symm
  | cons text rest ih =>
    have hunqueued : engine.program.isQueued text.1 = false := by
      rw [Bool.eq_false_iff]
      intro hqueued
      have hmem := (Program.isQueued_iff _ _).1 hqueued
      rw [List.nodup_append] at hnodup
      exact hnodup.2.2 _ hmem _ (by simp) rfl
    have hadd : engine.program.addFile text.1 (some text.2) none = (true, { engine.program with
        queue := engine.program.queue ++ [⟨text.1, some text.2, none⟩] }) := by
      unfold Program.addFile
      simp [hunloaded text (by simp), hunqueued]
    have hstep : (engine.step (.addFile text.1 (some text.2) none)).program =
        { engine.program with
          queue := engine.program.queue ++ [⟨text.1, some text.2, none⟩] } :=
      congrArg Prod.snd hadd
    change ((engine.step (.addFile text.1 (some text.2) none)).run (adding rest)).program.queue = _
    rw [ih]
    · rw [hstep, List.append_assoc, List.map_cons]
      rfl
    · intro other hother
      rw [hstep]
      exact hunloaded other (by simp [hother])
    · rw [hstep]
      simpa [Program.queued] using hnodup

/-- A new session that adds texts and analyzes once loads just these texts. -/
theorem history_reload {texts : List (String × String)} (hprogram : fresh.program = .initial)
    (hnodup : (texts.map Prod.fst).Nodup) :
    fresh.history (adding texts ++ [.analyze read mail]) = texts := by
  have hqueue : (fresh.run (adding texts)).program.queue =
      texts.map fun text => ⟨text.1, some text.2, none⟩ := by
    rw [queue_adding]
    · rw [hprogram]
      rfl
    · intro text _
      rw [hprogram]
      rfl
    · rw [hprogram]
      exact hnodup
  rw [history_append, history_adding, List.nil_append]
  simp only [history, List.append_nil, Program.texts, hqueue]
  rw [List.filterMap_map]
  exact List.filterMap_some

/-- What a session ends with when nothing is left to do but to load what is wanted. -/
theorem Works.ended {texts : List (String × String)}
    (h : Works config (Chronicle config) others texts engine resolver)
    (hcomplete : Complete config mail (resolver.work engine.program))
    (hwanted : ∀ pending ∈ engine.program.queue,
      Wanted config mail (resolver.work engine.program) pending) :
    ∃ loads : List Load, loads.map Load.text = texts ∧
      Ended config mail loads (resolver.work engine.program) := by
  obtain ⟨loads, hloads, hrecorded⟩ := h.holds
  refine ⟨loads, hloads, h.ready, hcomplete, hrecorded, ?_⟩
  intro load hload
  have hmem := path_mem_of_mem_settle hload
  rw [hloads] at hmem
  rcases h.present load.1 hmem with hloaded | ⟨pending, hpending, _, htext⟩
  · exact hloaded
  · obtain ⟨_, _, _, _, _, _, _, _, _, _, _, _, hnone⟩ := hwanted pending hpending
    rw [hnone] at htext
    cases htext

/-- What a session ends with after an analysis. -/
theorem Starts.ended (h : engine.Starts config 0)
    (hresolver : (engine.run (steps ++ [.analyze read mail])).resolver? = some resolver)
    (henabled : resolver.isEnabled = true) :
    ∃ loads : List Load, loads.map Load.text = engine.history (steps ++ [.analyze read mail]) ∧
      Ended config mail loads
        (resolver.work (engine.run (steps ++ [.analyze read mail])).program) := by
  obtain ⟨texts, hexpected, hworks, _, hcomplete, hwanted⟩ :=
    h.analyzed (invariant_chronicle config) hresolver henabled
  rw [← hexpected rfl]
  exact hworks.ended hcomplete (hwanted rfl)

/-- Incremental analysis agrees with analysis from scratch: after any steps that end in an
    analysis, and provided that every file loaded again registered again what it registered
    before, a new session that is given the loaded files with their present texts in their present
    order ends with the same result. -/
theorem sameResult_of_reload (hstart : engine.Starts config 0)
    (hresolver : (engine.run (steps ++ [.analyze read mail])).resolver? = some resolver)
    (henabled : resolver.isEnabled = true)
    (hreload : Reregisters config (engine.history (steps ++ [.analyze read mail])))
    (hfresh : fresh.Starts config 0)
    (hnewest : (fresh.run ((engine.run (steps ++ [.analyze read mail])).program.reload ++
      [.analyze again other])).resolver? = some newest)
    (henabled' : newest.isEnabled = true) :
    SameResult config (resolver.work (engine.run (steps ++ [.analyze read mail])).program)
      (newest.work (fresh.run ((engine.run (steps ++ [.analyze read mail])).program.reload ++
        [.analyze again other])).program) := by
  obtain ⟨loads, hloads, hended⟩ := hstart.ended hresolver henabled
  obtain ⟨others, hothers, hended'⟩ := hfresh.ended hnewest henabled'
  have hsteps : (engine.run (steps ++ [.analyze read mail])).program.reload =
      adding (settle (loads.map Load.text)) := by
    rw [← hended.texts]
    simp [Program.reload, adding, ResolverPlugin.work]
  obtain ⟨_, _, _, hprogram⟩ := hfresh
  refine hended.sameResult hended' (hloads ▸ hreload) ?_
  rw [hothers, hsteps]
  exact history_reload hprogram (nodup_settle _)

end

theorem registers_of_keys [Parser] {first second : String}
    (h : ∀ key ∈ (provision config path first).registry.providers.keys,
      key ∈ (provision config path second).registry.providers.keys)
    (hname : registers config (path, first) name = true) :
    registers config (path, second) name = true :=
  (Keyed.mem_keys_iff _ _).1 (h _ ((Keyed.mem_keys_iff _ _).2 hname))

def editedText : String :=
  "function main(options, imports, register) \x7b register(null, \x7b net: 1, fs: \"\" \x7d); \x7d"

def editedSteps : List Step :=
  [.addFile "b.js" (some providerText) none, .addFile "a.js" (some consumerText) none,
    .analyze (fun _ => none) [], .updateFile "b.js" editedText]

theorem analyzed_edited :
    (alone.run (editedSteps ++ [.analyze (fun _ => none) []])).resolver?.map
      ResolverPlugin.isEnabled = some true ∧
    (alone.run ((alone.run (editedSteps ++ [.analyze (fun _ => none) []])).program.reload ++
      [.analyze (fun _ => none) []])).resolver?.map ResolverPlugin.isEnabled = some true ∧
    alone.history (editedSteps ++ [.analyze (fun _ => none) []]) =
      [("b.js", providerText), ("a.js", consumerText), ("b.js", editedText)] ∧
    [("a.js", consumerText), ("b.js", editedText)].lookup "b.js" = some editedText ∧
    ∀ key ∈ (provision .default "b.js" providerText).registry.providers.keys,
      key ∈ (provision .default "b.js" editedText).registry.providers.keys := by
  decide +kernel

theorem sameResult_edited : ∃ resolver newest,
    (alone.run (editedSteps ++ [.analyze (fun _ => none) []])).resolver? = some resolver ∧
    (alone.run ((alone.run (editedSteps ++ [.analyze (fun _ => none) []])).program.reload ++
      [.analyze (fun _ => none) []])).resolver? = some newest ∧
    SameResult .default
      (resolver.work (alone.run (editedSteps ++ [.analyze (fun _ => none) []])).program)
      (newest.work (alone.run ((alone.run
        (editedSteps ++ [.analyze (fun _ => none) []])).program.reload ++
          [.analyze (fun _ => none) []])).program) := by
  obtain ⟨hfirst, hsecond, hhistory, hlookup, hkeys⟩ := analyzed_edited
  obtain ⟨resolver, hresolver, henabled⟩ := Option.map_eq_some_iff.1 hfirst
  obtain ⟨newest, hnewest, henabled'⟩ := Option.map_eq_some_iff.1 hsecond
  refine ⟨resolver, newest, hresolver, hnewest, sameResult_of_reload starts_alone hresolver henabled
    ?_ starts_alone hnewest henabled'⟩
  rw [hhistory]
  refine ⟨?_, ?_, ?_, trivial⟩
  · intro next hnext name
    rw [hlookup] at hnext
    obtain rfl := Option.some.inj hnext
    exact registers_of_keys hkeys
  · intro next hnext
    simp at hnext
  · intro next hnext
    cases hnext

end Engine

end Capabilities.Session
