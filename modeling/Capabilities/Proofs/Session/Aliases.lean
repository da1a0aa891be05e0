import Capabilities.Proofs.Session.Analysis
import Capabilities.Script.Parse

/-!
# Variables that give imports a name

A variable declared as `fs = imports.fs` in the body of an entry function stands for an import. The
first entry function of a file that has a scope attaches what is registered for a name to such a
variable too, and what a later pass puts in its place replaces it. Since what is bound is noted
once for the whole file, this needs two things: the entry functions after the first one find
nothing to do, so their variables stay as they are, and a variable that stands for two names may
lose a type that both have when only one of them gets another.
-/

namespace Capabilities.Resolver

open Host Script Session Capabilities.Types Capabilities.Module

/-! ### The first entry function with a scope -/

/-- Whether an entry function receives its imports through a variable of its own. -/
def hasScope (program : Program) (file : String) (entry : Entry) : Bool :=
  (program.localValue? file entry.node.id importsParameter).isSome

theorem locate?_isSome (program : Program) (file : String) (entry : Entry) :
    (ConsumerSite.locate? program file entry).isSome = hasScope program file entry := by
  simp only [ConsumerSite.locate?, hasScope, bind, pure]
  cases program.localValue? file entry.node.id importsParameter with
  | none => rfl
  | some imports => rfl

/-- The variables of a site that give a name are those of its entry function. -/
theorem mem_named_iff {program : Program} {file name : String} {entry : Entry}
    {site : ConsumerSite} {value : ValueId}
    (h : ConsumerSite.locate? program file entry = some site) :
    value ∈ named site name ↔ ∃ item ∈ entry.importAliases, item.capability = name ∧
      program.localValue? file entry.node.id item.localName = some value := by
  obtain ⟨imports, _, hsite⟩ := Option.bind_eq_some_iff.1 h
  cases hsite
  unfold named
  simp only [List.mem_map, List.mem_filter, List.mem_filterMap, Option.map_eq_some_iff]
  constructor
  · rintro ⟨_, ⟨⟨item, hitem, found, hfound, rfl⟩, hname⟩, rfl⟩
    exact ⟨item, hitem, eq_of_beq hname, hfound⟩
  · rintro ⟨item, hitem, rfl, hvalue⟩
    exact ⟨(item.capability, value), ⟨⟨item, hitem, value, hvalue, rfl⟩, beq_self_eq_true _⟩, rfl⟩

/-- Entry functions without a scope are passed over. -/
theorem sites_of_find? {config : Config} {program : Program} {file : String} {root : Node}
    {entry : Entry}
    (h : (entries [config.consumerEntry] root).find? (hasScope program file) = some entry) :
    ∃ site rest, sites config program file root = site :: rest ∧
      ConsumerSite.locate? program file entry = some site := by
  obtain ⟨hscope, front, back, hentries, hfront⟩ := List.find?_eq_some_iff_append.1 h
  rw [← locate?_isSome] at hscope
  obtain ⟨site, hsite⟩ := Option.isSome_iff_exists.1 hscope
  have hnone : front.filterMap (ConsumerSite.locate? program file) = [] := by
    rw [List.filterMap_eq_nil_iff]
    intro other hother
    have hother := hfront other hother
    rw [← locate?_isSome] at hother
    simpa using hother
  refine ⟨site, back.filterMap (ConsumerSite.locate? program file), ?_, hsite⟩
  unfold sites
  rw [hentries, List.filterMap_append, hnone, List.nil_append, List.filterMap_cons, hsite]

/-! ### After a pass -/

/-- A variable of the first entry function with a scope that stands for one declared name only
    holds what is registered for it. -/
theorem alias_of_settled [Parser] {config : Config} {mail : Mail} {work : Work} {file text : String}
    {names : List String} {entry : Entry} {item : ImportAlias} {value : ValueId} {type : TypeId}
    (hready : Ready config work) (hsettled : Settled config mail work file text)
    (hfile : work.program.file? file = some (.ofText file text))
    (hnames : (declaration .consumes config.entryNames (parse text)).names? = some names)
    (hentry : (entries [config.consumerEntry] (parse text)).find? (hasScope work.program file) =
      some entry)
    (hitem : item ∈ entry.importAliases) (hname : item.capability ∈ names)
    (hsole : ∀ other ∈ entry.importAliases, other.localName = item.localName →
      other.capability ∈ names → other.capability = item.capability)
    (hvalue : work.program.localValue? file entry.node.id item.localName = some value)
    (htype : work.state.registry.lookup? item.capability = some type) :
    type ∈ work.program.store.typesOf value := by
  obtain ⟨site, rest, hsites, hlocate⟩ := sites_of_find? hentry
  obtain ⟨object, hbound⟩ := hsettled.bound names hnames (by simp [hsites])
  have hmem : value ∈ named site item.capability :=
    (mem_named_iff hlocate).2 ⟨item, hitem, rfl, hvalue⟩
  refine (hready.attached hfile).aliases names hnames site rest hsites item.capability value hmem
    ?_ type ((bound?_of_bound hbound hname).trans htype)
  intro name hdeclared hnamed
  obtain ⟨other, hother, rfl, hsame⟩ := (mem_named_iff hlocate).1 hnamed
  -- a value belongs to one variable, so the two names are given to the same one
  have heq := hready.sound.distinct (.ofVariable ⟨file, entry.node.id, other.localName⟩)
    (.ofVariable ⟨file, entry.node.id, item.localName⟩) value hsame hvalue
  injection heq with heq
  injection heq with _ _ heq
  exact hsole other hother heq hdeclared

end Capabilities.Resolver

namespace Capabilities.Session.Engine

open Host Script Resolver Capabilities.Types Capabilities.Module

variable {config : Config} {others : Nat} {engine : Engine Installed} {steps : List Step}
  {read : String → Option String} {mail : Mail} {resolver : ResolverPlugin}

/-- After an analysis, whatever was bound and replaced before: in every loaded file that declares
    what it consumes, a variable of the first entry function with a scope that stands for just one
    declared name holds the type registered for it. -/
theorem alias_of_analyze [Parser] (hstart : engine.Starts config others)
    (hresolver : (engine.run (steps ++ [.analyze read mail])).resolver? = some resolver)
    (henabled : resolver.isEnabled = true) {file text : String} {names : List String}
    {entry : Entry} {item : ImportAlias} {value : ValueId} {type : TypeId}
    (hfile : ((engine.run (steps ++ [.analyze read mail])).program.file? file).map
      SourceFile.text = some text)
    (hnames : (declaration .consumes config.entryNames (parse text)).names? = some names)
    (hentry : (entries [config.consumerEntry] (parse text)).find?
      (hasScope (engine.run (steps ++ [.analyze read mail])).program file) = some entry)
    (hitem : item ∈ entry.importAliases) (hname : item.capability ∈ names)
    (hsole : ∀ other ∈ entry.importAliases, other.localName = item.localName →
      other.capability ∈ names → other.capability = item.capability)
    (hvalue : (engine.run (steps ++ [.analyze read mail])).program.localValue? file
      entry.node.id item.localName = some value)
    (htype : resolver.state.registry.lookup? item.capability = some type) :
    type ∈ (engine.run (steps ++ [.analyze read mail])).program.store.typesOf value := by
  obtain ⟨_, _, hworks, _, hcomplete, _⟩ :=
    hstart.analyzed (invariant_true config) hresolver henabled
  obtain ⟨source, hsource, htext⟩ := Option.map_eq_some_iff.1 hfile
  obtain ⟨other, rfl, _⟩ := hworks.ready.loaded file source hsource
  obtain rfl : other = text := htext
  exact alias_of_settled hworks.ready (hcomplete.of_file? hsource) hsource hnames hentry hitem
    hname hsole hvalue htype

/-- A consumer with two entry functions, each of which gives the import a name. -/
def twiceText : String :=
  "main.consumes = [\"fs\"]; function main(o, imports, register) \x7b var fs = imports.fs \x7d " ++
    "function main(o, imports, register) \x7b var fs = imports.fs \x7d"

def replacedText : String :=
  "function main(options, imports, register) \x7b register(null, \x7b fs: \"\" \x7d); \x7d"

def twiceSteps : List Step :=
  [.addFile "a.js" (some twiceText) none, .addFile "b.js" (some providerText) none,
    .analyze (fun _ => none) [], .updateFile "b.js" replacedText]

/-- What an entry function of the consumer gives names to, and its variable `fs`. -/
def aliasesOf (program : Program) (entry : Entry) : List ImportAlias × Option ValueId :=
  (entry.importAliases, program.localValue? "a.js" entry.node.id "fs")

theorem analyzed_twice :
    let last := alone.run (twiceSteps ++ [.analyze (fun _ => none) []])
    last.resolver?.map (fun resolver =>
      (resolver.isEnabled, resolver.state.registry.lookup? "fs")) =
        some (true, some (Store.primitive .string)) ∧
    (last.program.file? "a.js").map SourceFile.text = some twiceText ∧
    (declaration .consumes ["main", "plugin"] (parse twiceText)).names? = some ["fs"] ∧
    ((entries ["main"] (parse twiceText)).find? (hasScope last.program "a.js")).map
      (aliasesOf last.program) = some ([⟨"fs", "fs"⟩], some ⟨8⟩) ∧
    (entries ["main"] (parse twiceText))[1]?.map (fun entry =>
      (hasScope last.program "a.js" entry, aliasesOf last.program entry)) =
        some (true, [⟨"fs", "fs"⟩], some ⟨14⟩) ∧
    last.program.store.typesOf ⟨14⟩ = [] := by
  decide +kernel

/-- The variable of the first entry function has followed the provider. -/
theorem alias_of_analyze_twice :
    Store.primitive .string ∈
      (alone.run (twiceSteps ++ [.analyze (fun _ => none) []])).program.store.typesOf ⟨8⟩ := by
  obtain ⟨hresolver, hfile, hnames, hfound, _⟩ := analyzed_twice
  obtain ⟨resolver, hresolver, hknown⟩ := Option.map_eq_some_iff.1 hresolver
  obtain ⟨entry, hentry, haliases⟩ := Option.map_eq_some_iff.1 hfound
  obtain ⟨henabled, hlookup⟩ := Prod.mk.inj hknown
  obtain ⟨hitems, hvalue⟩ := Prod.mk.inj haliases
  have hitem : (⟨"fs", "fs"⟩ : ImportAlias) ∈ entry.importAliases := by
    rw [hitems]
    exact List.mem_singleton.2 rfl
  have hname : (⟨"fs", "fs"⟩ : ImportAlias).capability ∈ ["fs"] := List.mem_singleton.2 rfl
  refine alias_of_analyze starts_alone hresolver henabled hfile hnames hentry hitem hname ?_ hvalue
    hlookup
  intro other hother _ _
  rw [hitems] at hother
  rw [List.mem_singleton.1 hother]

/-- The variable of the second one, which has a scope too, has got nothing at all. -/
theorem later_alias_empty :
    let last := alone.run (twiceSteps ++ [.analyze (fun _ => none) []])
    last.resolver?.map (fun resolver =>
      (resolver.isEnabled, resolver.state.registry.lookup? "fs")) =
        some (true, some (Store.primitive .string)) ∧
    (last.program.file? "a.js").map SourceFile.text = some twiceText ∧
    (declaration .consumes ["main", "plugin"] (parse twiceText)).names? = some ["fs"] ∧
    (entries ["main"] (parse twiceText))[1]?.map (fun entry =>
      (hasScope last.program "a.js" entry, aliasesOf last.program entry)) =
        some (true, [⟨"fs", "fs"⟩], some ⟨14⟩) ∧
    last.program.store.typesOf ⟨14⟩ = [] := by
  obtain ⟨hresolver, hfile, hnames, _, hsecond, htypes⟩ := analyzed_twice
  exact ⟨hresolver, hfile, hnames, hsecond, htypes⟩

end Capabilities.Session.Engine
