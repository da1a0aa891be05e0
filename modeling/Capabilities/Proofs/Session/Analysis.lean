import Capabilities.Proofs.Session.Run
import Capabilities.Script.Parse

/-!
# After an analysis

An analysis that an enabled resolver comes out of has bound every consumer to what is registered
at that moment, whatever was registered, loaded or bound before. Nothing is left to do then:
another look at the same files finds everything in place.
-/

namespace Capabilities.Session.Engine

open Host Script Resolver Capabilities.Types Capabilities.Module

variable {config : Config} {others : Nat} {engine : Engine Installed} {steps : List Step}
  {read : String → Option String} {mail : Mail} {resolver : ResolverPlugin}

/-- Nothing in particular is kept. -/
theorem invariant_true [Parser] (config : Config) : Invariant config fun _ _ => True :=
  ⟨⟨fun _ _ _ _ _ => trivial, fun _ _ _ _ _ _ _ _ _ _ _ _ => trivial,
    fun _ _ _ _ _ _ => trivial, fun _ _ _ _ _ => trivial⟩, fun _ => trivial⟩

/-! ### What consumers see -/

/-- The imports of an entry function are bound to what is registered. -/
structure SeesImports [Parser] (state : State) (store : Store) (file text : String)
    (names : List String) (entry : Entry) (imports : ValueId) : Prop where
  /-- The stored binding lists each declared name once and maps it to what is registered. -/
  binding : ∃ binding, state.binding? file = some binding ∧
    binding.declared = names.eraseDups ∧
    ∀ name ∈ names, binding.entries.get? name = some (state.registry.lookup? name)
  /-- The parameter enumerates the declared names that are registered. -/
  enumeration : store.memberNames imports =
    names.eraseDups.filter fun name => (state.registry.lookup? name).isSome
  /-- The imports object holds for each of them the registered type and nothing else. -/
  members : ∃ object, state.importsObject? file = some object ∧
    ∀ name ∈ names, ∀ type, state.registry.lookup? name = some type →
      ∃ member, store.member? object name = some member ∧ store.typesOf member = [type]
  /-- Reading an import through the parameter gives the registered type and nothing else. -/
  lookup : LeavesImports file text entry → ∀ name ∈ names,
    store.lookupMember imports name = (state.registry.lookup? name).toList

/-- A place that shows a type holds it, one that shows none is not there. -/
theorem typesOf_of_shows {store : Store} {locals : Variables} {place : Place}
    {type : Option TypeId} (h : store.Shows locals place type) :
    ((store.place? locals place).map store.typesOf).getD [] = type.toList := by
  cases type with
  | none =>
    have hplace : store.place? locals place = none := h
    rw [hplace]
    rfl
  | some type =>
    obtain ⟨value, hplace, htypes⟩ := h
    rw [hplace, Option.map_some, Option.getD_some, htypes]
    rfl

/-- A value that holds just one object type reads its members from itself and from that object. -/
theorem lookupMember_of_typesOf {store : Store} {value : ValueId} {object : TypeId} (name : String)
    {found : Option TypeId} (htypes : store.typesOf value = [object])
    (hown : (((store.value? value).bind (·.members.get? name)).map store.typesOf).getD [] = [] ∨
      (((store.value? value).bind (·.members.get? name)).map store.typesOf).getD [] = found.toList)
    (hmember : ((store.member? object name).map store.typesOf).getD [] = found.toList) :
    store.lookupMember value name = found.toList := by
  cases hheld : store.value? value with
  | none =>
    unfold Store.typesOf at htypes
    rw [hheld] at htypes
    cases htypes
  | some held =>
    rw [Store.typesOf_eq store hheld] at htypes
    rw [hheld, Option.bind_some] at hown
    unfold Store.lookupMember
    simp only [hheld, htypes, List.flatMap_cons, List.flatMap_nil, List.append_nil, hmember]
    rcases hown with hown | hown
    · rw [hown]
      cases found <;> rfl
    · rw [hown]
      cases found with
      | none => rfl
      | some type => simp [Store.insertNew]

section

variable [Parser]

/-- The entry functions of a settled file see what is registered. -/
theorem seesImports_of_settled {work : Work} {file text : String} {names : List String}
    {entry : Entry} {imports : ValueId} (hready : Ready config work)
    (hsettled : Settled config mail work file text)
    (hfile : work.program.file? file = some (.ofText file text))
    (hnames : (declaration .consumes config.entryNames (parse text)).names? = some names)
    (hentry : entry ∈ entries [config.consumerEntry] (parse text))
    (himports : work.program.localValue? file entry.node.id importsParameter = some imports) :
    SeesImports work.state work.program.store file text names entry imports := by
  have hattached := hready.attached hfile
  obtain ⟨site, hlocate, hsame⟩ : ∃ site, ConsumerSite.locate? work.program file entry = some site ∧
      site.imports = imports := by
    simp only [ConsumerSite.locate?, himports, bind, Option.bind_some, pure]
    exact ⟨_, rfl, rfl⟩
  have hsite : site ∈ sites config work.program file (parse text) :=
    List.mem_filterMap.2 ⟨entry, hentry, hlocate⟩
  obtain ⟨object, hbound⟩ := hsettled.bound names hnames (List.ne_nil_of_mem hsite)
  obtain ⟨hmarked, henumeration⟩ := hbound.marked site hsite
  rw [hsame] at hmarked henumeration
  have hlookup : ∀ name ∈ names, work.state.bound? file name =
      work.state.registry.lookup? name := by
    intro name hname
    unfold State.bound?
    rw [hbound.binding, Option.bind_some, ImportsBinding.type?_ofNames, if_pos hname]
  refine ⟨⟨_, hbound.binding, ?_, ?_⟩, ?_, ⟨object, hbound.has_object, ?_⟩, ?_⟩
  · exact ImportsBinding.declared_ofNames file _ names
  · intro name hname
    rw [ImportsBinding.get?_ofNames, if_pos hname]
  · unfold Store.enumeration? at henumeration
    obtain ⟨held, hheld, hnames'⟩ := Option.bind_eq_some_iff.1 henumeration
    unfold Store.memberNames
    simp only [hheld, hnames']
    exact ImportsBinding.resolved_ofNames file _ names
  · intro name hname type htype
    have hshows := hattached.member object name hbound.has_object
    rw [hlookup name hname, htype] at hshows
    exact hshows
  · intro hleaves name hname
    have htypes : work.program.store.typesOf imports = [object] := by
      rcases hattached.imports entry hentry hleaves imports himports with
        hnone | ⟨other, hother, htypes⟩
      · rw [hnone] at hmarked
        cases hmarked
      · rw [hbound.has_object] at hother
        cases hother
        exact htypes
    have hmember := typesOf_of_shows (hattached.member object name hbound.has_object)
    rw [hlookup name hname] at hmember
    refine lookupMember_of_typesOf name htypes ?_ hmember
    -- only the first entry function has members of its own
    obtain ⟨first, rest, hsites⟩ := List.exists_cons_of_ne_nil (List.ne_nil_of_mem hsite)
    rw [hsites] at hsite
    rcases List.mem_cons.1 hsite with heq | hrest
    · right
      have hown := typesOf_of_shows (hattached.first first rest hsites name)
      rw [hlookup name hname, ← heq, hsame] at hown
      exact hown
    · left
      have hown := hattached.rest first rest hsites site hrest name
      rw [hsame] at hown
      exact congrArg (fun own => (Option.map work.program.store.typesOf own).getD []) hown

/-- After an analysis the entry functions of every loaded consumer see what is registered then. -/
theorem seesImports_of_analyze (hstart : engine.Starts config others)
    (hresolver : (engine.run (steps ++ [.analyze read mail])).resolver? = some resolver)
    (henabled : resolver.isEnabled = true) {file text : String} {names : List String}
    {entry : Entry} {imports : ValueId}
    (hfile : ((engine.run (steps ++ [.analyze read mail])).program.file? file).map
      SourceFile.text = some text)
    (hnames : (declaration .consumes config.entryNames (parse text)).names? = some names)
    (hentry : entry ∈ entries [config.consumerEntry] (parse text))
    (himports : (engine.run (steps ++ [.analyze read mail])).program.localValue? file
      entry.node.id importsParameter = some imports) :
    SeesImports resolver.state (engine.run (steps ++ [.analyze read mail])).program.store file text
      names entry imports := by
  obtain ⟨_, _, hworks, _, hcomplete, _⟩ :=
    hstart.analyzed (invariant_true config) hresolver henabled
  obtain ⟨source, hsource, htext⟩ := Option.map_eq_some_iff.1 hfile
  obtain ⟨other, rfl, _⟩ := hworks.ready.loaded file source hsource
  obtain rfl : other = text := htext
  exact seesImports_of_settled hworks.ready (hcomplete.of_file? hsource) hsource hnames hentry
    himports

end

def consumerText : String :=
  "main.consumes = [\"fs\"]; function main(options, imports, register) \x7b\x7d"

def providerText : String :=
  "function main(options, imports, register) \x7b register(null, \x7b fs: 1 \x7d); \x7d"

def alone : Engine Installed := .new [.resolver ⟨.default, .initial, .notRequested, none⟩]

theorem starts_alone : alone.Starts .default 0 :=
  ⟨⟨.default, .initial, .notRequested, none⟩, ⟨[], [], rfl, rfl⟩,
    ⟨rfl, rfl, fun _ hreply => by cases hreply⟩, rfl⟩

/-- The consumer is analyzed without its provider and then given its text anew. -/
def consumerSteps : List Step :=
  [.addFile "a.js" (some consumerText) none, .analyze (fun _ => none) [],
    .addFile "b.js" (some providerText) none, .updateFile "a.js" consumerText]

theorem analyzed_consumer :
    (alone.run (consumerSteps ++ [.analyze (fun _ => none) []])).resolver?.map
      ResolverPlugin.isEnabled = some true ∧
    ((alone.run (consumerSteps ++ [.analyze (fun _ => none) []])).program.file? "a.js").map
      SourceFile.text = some consumerText ∧
    (declaration .consumes ["main", "plugin"] (parse consumerText)).names? = some ["fs"] ∧
    (entries ["main"] (parse consumerText)).length = 1 ∧
    ∀ entry ∈ entries ["main"] (parse consumerText),
      ((alone.run (consumerSteps ++ [.analyze (fun _ => none) []])).program.localValue? "a.js"
        entry.node.id importsParameter).isSome = true := by
  decide +kernel

theorem seesImports_consumer : ∃ resolver entry imports,
    (alone.run (consumerSteps ++ [.analyze (fun _ => none) []])).resolver? = some resolver ∧
    entry ∈ entries ["main"] (parse consumerText) ∧
    SeesImports resolver.state
      (alone.run (consumerSteps ++ [.analyze (fun _ => none) []])).program.store
      "a.js" consumerText ["fs"] entry imports := by
  obtain ⟨hresolver, hfile, hnames, hlength, himports⟩ := analyzed_consumer
  obtain ⟨resolver, hresolver, henabled⟩ := Option.map_eq_some_iff.1 hresolver
  obtain ⟨entry, hentry⟩ :=
    List.exists_mem_of_length_pos (Nat.lt_of_lt_of_eq Nat.one_pos hlength.symm)
  obtain ⟨imports, hvalue⟩ := Option.isSome_iff_exists.1 (himports entry hentry)
  exact ⟨resolver, entry, imports, hresolver, hentry,
    seesImports_of_analyze starts_alone hresolver henabled hfile hnames hentry hvalue⟩

/-! ### Looking again -/

section

variable [Parser]

/-- Asking for more files leaves the resolver and a complete work as they are. -/
theorem Works.adds {kept : List (String × String) → Work → Prop} {texts : List (String × String)}
    {added : List Step} (h : Works config kept others texts engine resolver)
    (hkept : Invariant config kept)
    (hcomplete : Complete config mail (resolver.work engine.program))
    (hadded : ∀ step ∈ added, ∃ path text origin, step = .addFile path text origin) :
    Works config kept others texts (engine.run added) resolver ∧
      Complete config mail (resolver.work (engine.run added).program) := by
  induction added generalizing engine with
  | nil => exact ⟨h, hcomplete⟩
  | cons first rest ih =>
    obtain ⟨path, text, origin, rfl⟩ := hadded first (by simp)
    obtain ⟨more, hmore, hmay⟩ := addFile_eq_queueing engine.program path text origin
    refine ih (h.addFile hkept.toMaintained path text origin) ?_
      fun step hstep => hadded step (by simp [hstep])
    have hprogram : (engine.step (.addFile path text origin)).program =
        engine.program.queueing more := hmore
    rw [hprogram]
    exact hcomplete.queueing hmay

theorem plugins_adds {added : List Step}
    (hadded : ∀ step ∈ added, ∃ path text origin, step = .addFile path text origin) :
    (engine.run added).plugins = engine.plugins := by
  induction added generalizing engine with
  | nil => rfl
  | cons first rest ih =>
    obtain ⟨path, text, origin, rfl⟩ := hadded first (by simp)
    exact ih fun step hstep => hadded step (by simp [hstep])

theorem run_adds (engine : Engine Installed) (added : List Step) :
    engine.run (steps ++ .analyze read mail :: added) =
      (engine.run (steps ++ [.analyze read mail])).run added := by
  rw [← run_append, List.append_assoc]
  rfl

theorem resolver?_adds {added : List Step}
    (hadded : ∀ step ∈ added, ∃ path text origin, step = .addFile path text origin) :
    (engine.run (steps ++ .analyze read mail :: added)).resolver? =
      (engine.run (steps ++ [.analyze read mail])).resolver? := by
  unfold Engine.resolver?
  rw [run_adds, plugins_adds hadded]

/-- After an analysis, with no file loaded or updated and no other letters in the mail, another
    pass over all consumers changes nothing at all. Files may have been asked for. -/
theorem postInfer_of_analyze (hstart : engine.Starts config others) {added : List Step}
    (hadded : ∀ step ∈ added, ∃ path text origin, step = .addFile path text origin)
    (hresolver : (engine.run (steps ++ .analyze read mail :: added)).resolver? = some resolver)
    (henabled : resolver.isEnabled = true) :
    ResolverPlugin.postInfer mail resolver
        (engine.run (steps ++ .analyze read mail :: added)).program =
      (resolver, (engine.run (steps ++ .analyze read mail :: added)).program) := by
  rw [resolver?_adds hadded] at hresolver
  obtain ⟨_, _, hworks, hpoll, hcomplete, _⟩ :=
    hstart.analyzed (invariant_true config) hresolver henabled
  obtain ⟨hafter, hdone⟩ := hworks.adds (invariant_true config) hcomplete hadded
  have hon : (resolver.poll mail).isEnabled = true := by
    rw [hpoll]
    exact henabled
  rw [run_adds, postInfer_eq _ hon, hpoll, hafter.settings,
    hafter.ready.bindProgram_settled hdone.origin hdone.settled]
  rfl

end

theorem postInfer_consumer : ∃ resolver,
    (alone.run (consumerSteps ++ .analyze (fun _ => none) [] ::
      [.addFile "c.js" none none])).resolver? = some resolver ∧
    ResolverPlugin.postInfer [] resolver (alone.run (consumerSteps ++
        .analyze (fun _ => none) [] :: [.addFile "c.js" none none])).program =
      (resolver, (alone.run (consumerSteps ++ .analyze (fun _ => none) [] ::
        [.addFile "c.js" none none])).program) := by
  obtain ⟨resolver, hanalyzed, henabled⟩ := Option.map_eq_some_iff.1 analyzed_consumer.1
  have hresolver : (alone.run (consumerSteps ++ .analyze (fun _ => none) [] ::
      [.addFile "c.js" none none])).resolver? = some resolver := by
    rw [resolver?_adds (by simp), hanalyzed]
  exact ⟨resolver, hresolver,
    postInfer_of_analyze starts_alone (by simp) hresolver henabled⟩

end Capabilities.Session.Engine
