import Capabilities.Proofs.Resolver.Consumer
import Capabilities.Proofs.Resolver.Provision
import Capabilities.Proofs.Script.Identity

/-!
# What holds between two passes

`Ready` is what every session keeps: the store is sound, what is registered is in it and is no
imports object, and for every loaded file the binding that is stored, the members of the file's
imports object and the members of the parameter `imports` of its first entry function say the
same. `Settled` is what a pass brings about for a file in addition: the binding has what is
registered now, and nothing is left to ask or to report.

Both are about one file at a time, so they survive whatever leaves the places of that file alone
(`Keeps`).
-/

namespace Capabilities.Resolver

open Host Script Session Capabilities.Types Capabilities.Module

/-! ### Sites -/

/-- Where the entry functions of a file receive their imports, in order. -/
def sites (config : Config) (program : Program) (file : String) (root : Node) :
    List ConsumerSite :=
  (entries [config.consumerEntry] root).filterMap (ConsumerSite.locate? program file)

theorem locate?_eq_some {program : Program} {file : String} {entry : Entry} {site : ConsumerSite}
    (h : ConsumerSite.locate? program file entry = some site) :
    site.file = file ∧
      program.localValue? file entry.node.id importsParameter = some site.imports ∧
      ∀ item ∈ site.aliases, ∃ named ∈ entry.importAliases,
        program.localValue? file entry.node.id named.localName = some item.2 := by
  unfold ConsumerSite.locate? at h
  obtain ⟨imports, himports, h⟩ := Option.bind_eq_some_iff.1 h
  cases h
  refine ⟨rfl, himports, ?_⟩
  intro item hitem
  obtain ⟨named, hnamed, hmapped⟩ := List.mem_filterMap.1 hitem
  obtain ⟨value, hvalue, rfl⟩ := Option.map_eq_some_iff.1 hmapped
  exact ⟨named, hnamed, hvalue⟩

theorem siteIn_of_locate? {program : Program} {file : String} {entry : Entry}
    {site : ConsumerSite} (h : ConsumerSite.locate? program file entry = some site) :
    SiteIn program.locals site := by
  obtain ⟨hfile, himports, haliases⟩ := locate?_eq_some h
  refine ⟨⟨⟨file, entry.node.id, importsParameter⟩, hfile.symm, himports⟩, ?_⟩
  intro item hitem
  obtain ⟨named, _, hvalue⟩ := haliases item hitem
  exact ⟨⟨file, entry.node.id, named.localName⟩, hfile.symm, hvalue⟩

theorem locate?_of_get? {first second : Program} {file : String}
    (h : first.files.get? file = second.files.get? file) :
    ConsumerSite.locate? first file = ConsumerSite.locate? second file := by
  funext entry
  simp only [ConsumerSite.locate?, Program.localValue?, h]

theorem sites_of_get? {config : Config} {first second : Program} {file : String} (root : Node)
    (h : first.files.get? file = second.files.get? file) :
    sites config first file root = sites config second file root := by
  unfold sites
  rw [locate?_of_get? h]

/-- The sites of a file have values of their own. -/
theorem nodup_sites {config : Config} {program : Program} {file : String} {root : Node}
    (hids : (root.nodes.map Node.id).Nodup) (hsound : program.store.Sound program.locals) :
    ((sites config program file root).map ConsumerSite.imports).Nodup := by
  rw [List.nodup_iff_pairwise_ne, List.pairwise_map]
  unfold sites
  rw [List.pairwise_filterMap]
  have hentries := nodup_entries hids [config.consumerEntry]
  rw [List.nodup_iff_pairwise_ne, List.pairwise_map] at hentries
  refine hentries.imp ?_
  intro first second hne site hsite other hother heq
  obtain ⟨_, hfirst, _⟩ := locate?_eq_some hsite
  obtain ⟨_, hsecond, _⟩ := locate?_eq_some hother
  rw [← heq] at hsecond
  have hplace := hsound.distinct (.ofVariable ⟨file, first.node.id, importsParameter⟩)
    (.ofVariable ⟨file, second.node.id, importsParameter⟩) site.imports hfirst hsecond
  injection hplace with hplace
  injection hplace with _ hscope _
  exact hne hscope

/-- An entry function whose parameter `imports` inference leaves without types, and no variable of
    which that is to hold an import is named so too. -/
def LeavesImports [Parser] (file text : String) (entry : Entry) : Prop :=
  (∀ inference store value,
    Inference.inferFile file (parse text) .initial = (.ok inference, store) →
    inference.scopes.own? entry.node.id importsParameter = some value →
    store.typesOf value = []) ∧
  ∀ named ∈ entry.importAliases, named.localName ≠ importsParameter

/-! ### The invariants of a file -/

/-- What is kept of the binding of a loaded file. -/
structure Attached [Parser] (config : Config) (work : Work) (file text : String) : Prop where
  unbound : work.state.importsObject? file = none → work.state.binding? file = none
  undeclared : (declaration .consumes config.entryNames (parse text)).names? = none ∨
    sites config work.program file (parse text) = [] → work.state.binding? file = none
  undeclared_name : ∀ names, (declaration .consumes config.entryNames (parse text)).names? =
    some names → ∀ name, name ∉ names → work.state.bound? file name = none
  registered : ∀ name, work.state.registry.lookup? name = none →
    work.state.bound? file name = none
  foreign : ∀ object name, work.state.importsObject? file = some object →
    work.state.bound? file name ≠ some object
  member : ∀ object name, work.state.importsObject? file = some object →
    work.program.store.Shows work.program.locals (.member object name)
      (work.state.bound? file name)
  first : ∀ site rest, sites config work.program file (parse text) = site :: rest → ∀ name,
    work.program.store.Shows work.program.locals (.property site.imports name)
      (work.state.bound? file name)
  rest : ∀ site rest, sites config work.program file (parse text) = site :: rest →
    ∀ other ∈ rest, ∀ name,
      work.program.store.place? work.program.locals (.property other.imports name) = none
  imports : ∀ entry ∈ entries [config.consumerEntry] (parse text),
    LeavesImports file text entry →
    ∀ value, work.program.localValue? file entry.node.id importsParameter = some value →
      work.program.store.typesOf value = [] ∨ ∃ object,
        work.state.importsObject? file = some object ∧
        work.program.store.typesOf value = [object]
  aliases : ∀ names, (declaration .consumes config.entryNames (parse text)).names? = some names →
    ∀ site rest, sites config work.program file (parse text) = site :: rest →
    ∀ name value, value ∈ named site name →
    (∀ other ∈ names, value ∈ named site other → other = name) →
    ∀ type, work.state.bound? file name = some type → type ∈ work.program.store.typesOf value

/-- The names that a file declares are bound to what is registered for them, and nothing is left
    to ask for. The parameters of the entry functions that are `done` have the imports object and
    enumerate the resolved names. -/
structure Bound (config : Config) (mail : Mail) (work : Work) (file : String)
    (names : List String) (done : List ConsumerSite) (object : TypeId) : Prop where
  binding : work.state.binding? file = some (.ofNames file work.state.registry.lookup? names)
  stage : work.state.stages.get? file = some .bound
  has_object : work.state.importsObject? file = some object
  marked : ∀ site ∈ done, object ∈ work.program.store.typesOf site.imports ∧
    work.program.store.enumeration? site.imports =
      some (ImportsBinding.ofNames file work.state.registry.lookup? names).resolved
  handled : ∀ name ∈ names, work.state.registry.lookup? name = none →
    Handled config mail name file work

/-- What a pass leaves of a loaded file: nothing is left to do for it. -/
structure Settled [Parser] (config : Config) (mail : Mail) (work : Work) (file text : String) :
    Prop where
  reported : entries [config.consumerEntry] (parse text) ≠ [] →
    (declaration .consumes config.entryNames (parse text)).names? = none →
    work.state.warnedFiles.contains
      (file ++ ": " ++ (Warning.consumesUndeclared config.consumerEntry).message) = true
  bound : ∀ names, (declaration .consumes config.entryNames (parse text)).names? = some names →
    sites config work.program file (parse text) ≠ [] →
    ∃ object, Bound config mail work file names (sites config work.program file (parse text)) object

/-! ### What leaves a file alone -/

/-- The places that belong to a file. -/
def Belongs (work : Work) (file : String) : Place → Prop
  | .ofVariable of => of.file = file
  | .member owner _ => work.state.importsObject? file = some owner
  | .result _ => False
  | .property owner _ => ∃ of : Variable, of.file = file ∧
      work.program.locals of = some owner

/-- A file is what it was, and so is what is at its places. No provider was taken away. -/
structure Leaves (file : String) (before after : Work) : Prop where
  loaded : after.program.files.get? file = before.program.files.get? file
  registered : ∀ name, after.state.registry.lookup? name = none →
    before.state.registry.lookup? name = none
  object : after.state.importsObject? file = before.state.importsObject? file
  binding : after.state.binding? file = before.state.binding? file
  place : ∀ place, Belongs before file place →
    after.program.store.place? after.program.locals place =
      before.program.store.place? before.program.locals place
  held : ∀ place value, Belongs before file place →
    before.program.store.place? before.program.locals place = some value →
    after.program.store.typesOf value = before.program.store.typesOf value ∧
      after.program.store.enumeration? value = before.program.store.enumeration? value

/-- In addition the providers are the same, and what was asked and reported is still. -/
structure Keeps (mail : Mail) (file : String) (before after : Work) : Prop
    extends Leaves file before after where
  registry : after.state.registry = before.state.registry
  stage : after.state.stages.get? file = before.state.stages.get? file
  warned : ∀ text, before.state.warnedFiles.contains text = true →
    after.state.warnedFiles.contains text = true
  handled : ∀ config name consumer, Handled config mail name consumer before →
    Handled config mail name consumer after

variable {config : Config} {mail : Mail} {file text : String} {before middle after : Work}

theorem Leaves.refl (file : String) (work : Work) : Leaves file work work :=
  ⟨rfl, fun _ => id, rfl, rfl, fun _ _ => rfl, fun _ _ _ _ => ⟨rfl, rfl⟩⟩

theorem Leaves.localValue? (h : Leaves file before after) (scope : ScopeId) (name : String) :
    after.program.localValue? file scope name = before.program.localValue? file scope name := by
  unfold Program.localValue?
  rw [h.loaded]

theorem Leaves.belongs (h : Leaves file before after) (place : Place) :
    Belongs after file place ↔ Belongs before file place := by
  cases place with
  | ofVariable of => exact Iff.rfl
  | member owner name =>
    unfold Belongs
    rw [h.object]
  | result function => exact Iff.rfl
  | property owner name =>
    have hsame : ∀ of : Variable, of.file = file →
        after.program.locals of = before.program.locals of := by
      rintro of rfl
      exact h.localValue? of.scope of.name
    constructor
    · rintro ⟨of, hfile, hof⟩
      exact ⟨of, hfile, (hsame of hfile).symm.trans hof⟩
    · rintro ⟨of, hfile, hof⟩
      exact ⟨of, hfile, (hsame of hfile).trans hof⟩

theorem Leaves.trans (h : Leaves file before middle) (h' : Leaves file middle after) :
    Leaves file before after := by
  refine ⟨h'.loaded.trans h.loaded, fun name hname => h.registered name (h'.registered name hname),
    h'.object.trans h.object, h'.binding.trans h.binding, ?_, ?_⟩
  · intro place hbelongs
    exact (h'.place place ((h.belongs place).2 hbelongs)).trans (h.place place hbelongs)
  · intro place value hbelongs hplace
    have hmiddle := (h.place place hbelongs).trans hplace
    obtain ⟨htypes, henumeration⟩ := h.held place value hbelongs hplace
    obtain ⟨htypes', henumeration'⟩ :=
      h'.held place value ((h.belongs place).2 hbelongs) hmiddle
    exact ⟨htypes'.trans htypes, henumeration'.trans henumeration⟩

theorem Keeps.refl (mail : Mail) (file : String) (work : Work) : Keeps mail file work work :=
  ⟨.refl file work, rfl, rfl, fun _ => id, fun _ _ _ => id⟩

theorem Keeps.trans (h : Keeps mail file before middle) (h' : Keeps mail file middle after) :
    Keeps mail file before after :=
  ⟨h.toLeaves.trans h'.toLeaves, h'.registry.trans h.registry, h'.stage.trans h.stage,
    fun text htext => h'.warned text (h.warned text htext),
    fun config name consumer hdone =>
      h'.handled config name consumer (h.handled config name consumer hdone)⟩

theorem Leaves.bound? (h : Leaves file before after) (name : String) :
    after.state.bound? file name = before.state.bound? file name := by
  unfold State.bound?
  rw [h.binding]

theorem Leaves.sites (h : Leaves file before after) (config : Config) (root : Node) :
    Resolver.sites config after.program file root =
      Resolver.sites config before.program file root :=
  sites_of_get? root h.loaded

theorem Leaves.shows {place : Place} {type : Option TypeId} (h : Leaves file before after)
    (hbelongs : Belongs before file place)
    (hshows : before.program.store.Shows before.program.locals place type) :
    after.program.store.Shows after.program.locals place type := by
  cases type with
  | none => exact (h.place place hbelongs).trans hshows
  | some type =>
    obtain ⟨value, hplace, htypes⟩ := hshows
    refine ⟨value, (h.place place hbelongs).trans hplace, ?_⟩
    rw [(h.held place value hbelongs hplace).1, htypes]

/-- The members of a site's parameter belong to the file. -/
theorem belongs_property {work : Work} {root : Node} {site : ConsumerSite} (name : String)
    (hsite : site ∈ sites config work.program file root) :
    Belongs work file (.property site.imports name) := by
  obtain ⟨entry, _, hlocate⟩ := List.mem_filterMap.1 hsite
  obtain ⟨_, himports, _⟩ := locate?_eq_some hlocate
  exact ⟨⟨file, entry.node.id, importsParameter⟩, rfl, himports⟩

variable [Parser]

/-- Only declared names are bound. -/
theorem Attached.declared {work : Work} {names : List String} {name : String} {type : TypeId}
    (h : Attached config work file text)
    (hnames : (declaration .consumes config.entryNames (parse text)).names? = some names)
    (hbound : work.state.bound? file name = some type) : name ∈ names := by
  refine Decidable.byContradiction fun hname => ?_
  rw [h.undeclared_name names hnames name hname] at hbound
  cases hbound

theorem Attached.leaves (h : Attached config before file text)
    (hleaves : Leaves file before after) : Attached config after file text := by
  have hsites := hleaves.sites config (parse text)
  refine ⟨?_, ?_, ?_, ?_, ?_, ?_, ?_, ?_, ?_, ?_⟩
  · rw [hleaves.object, hleaves.binding]
    exact h.unbound
  · rw [hsites, hleaves.binding]
    exact h.undeclared
  · intro names hnames name hname
    rw [hleaves.bound?]
    exact h.undeclared_name names hnames name hname
  · intro name hname
    rw [hleaves.bound?]
    exact h.registered name (hleaves.registered name hname)
  · intro object name hobject
    rw [hleaves.object] at hobject
    rw [hleaves.bound?]
    exact h.foreign object name hobject
  · intro object name hobject
    rw [hleaves.object] at hobject
    rw [hleaves.bound?]
    exact hleaves.shows hobject (h.member object name hobject)
  · intro site rest heq name
    rw [hsites] at heq
    rw [hleaves.bound?]
    exact hleaves.shows (belongs_property name (heq ▸ List.mem_cons_self))
      (h.first site rest heq name)
  · intro site rest heq other hother name
    rw [hsites] at heq
    have hmem : other ∈ sites config before.program file (parse text) := by
      rw [heq]
      exact List.mem_cons_of_mem _ hother
    rw [hleaves.place _ (belongs_property name hmem)]
    exact h.rest site rest heq other hother name
  · intro entry hentry hquiet value hvalue
    rw [hleaves.localValue?] at hvalue
    have htypes := (hleaves.held (.ofVariable ⟨file, entry.node.id, importsParameter⟩) value rfl
      hvalue).1
    rw [htypes, hleaves.object]
    exact h.imports entry hentry hquiet value hvalue
  · intro names hnames site rest heq name value hvalue hsole type htype
    rw [hsites] at heq
    rw [hleaves.bound?] at htype
    obtain ⟨entry, _, hlocate⟩ := List.mem_filterMap.1 (heq ▸ List.mem_cons_self)
    obtain ⟨of, hfile, hof⟩ := variable_of_mem_named (siteIn_of_locate? hlocate) hvalue
    rw [(locate?_eq_some hlocate).1] at hfile
    rw [(hleaves.held (.ofVariable of) value hfile hof).1]
    exact h.aliases names hnames site rest heq name value hvalue hsole type htype

theorem Bound.keeps {names : List String} {done : List ConsumerSite} {object : TypeId}
    (h : Bound config mail before file names done object) (hkeeps : Keeps mail file before after)
    (hdone : ∀ site ∈ done, site ∈ sites config before.program file (parse text)) :
    Bound config mail after file names done object := by
  refine ⟨?_, ?_, ?_, ?_, ?_⟩
  · rw [hkeeps.binding, hkeeps.registry]
    exact h.binding
  · rw [hkeeps.stage]
    exact h.stage
  · rw [hkeeps.object]
    exact h.has_object
  · intro site hsite
    obtain ⟨entry, _, hlocate⟩ := List.mem_filterMap.1 (hdone site hsite)
    obtain ⟨_, himports, _⟩ := locate?_eq_some hlocate
    obtain ⟨htypes, henumeration⟩ := hkeeps.held
      (.ofVariable ⟨file, entry.node.id, importsParameter⟩) site.imports rfl himports
    rw [htypes, henumeration, hkeeps.registry]
    exact h.marked site hsite
  · intro name hname hnone
    rw [hkeeps.registry] at hnone
    exact hkeeps.handled config name file (h.handled name hname hnone)

theorem Settled.keeps (h : Settled config mail before file text)
    (hkeeps : Keeps mail file before after) : Settled config mail after file text := by
  have hsites := hkeeps.sites config (parse text)
  refine ⟨?_, ?_⟩
  · intro hentries hnames
    exact hkeeps.warned _ (h.reported hentries hnames)
  · intro names hnames hne
    rw [hsites] at hne ⊢
    obtain ⟨object, hbound⟩ := h.bound names hnames hne
    exact ⟨object, hbound.keeps hkeeps fun _ => id⟩

end Capabilities.Resolver
