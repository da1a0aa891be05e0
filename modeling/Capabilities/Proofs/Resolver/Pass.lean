import Capabilities.Proofs.Resolver.Ready

/-!
# A pass over all consumers

Binding a file that is ready settles it, whatever was bound to it before: the first entry function
gets what changed, the others only get the imports object and the enumeration. Binding a settled
file changes nothing. Since the steps for one file keep all others, a pass over all loaded files
settles all of them, and a second one changes nothing at all.
-/

namespace Capabilities.Resolver

open Host Script Session Capabilities.Types Capabilities.Module

variable {config : Config} {mail : Mail} {wanted : PendingFile → Prop} {file text : String}
  {names : List String} {site : ConsumerSite} {object : TypeId} {work next : Work}

/-! ### What may be asked for -/

/-- All files that binding a file may ask for are wanted. -/
def Covers [Parser] (config : Config) (mail : Mail) (wanted : PendingFile → Prop) (work : Work)
    (file text : String) : Prop :=
  ∀ names, (declaration .consumes config.entryNames (parse text)).names? = some names →
    sites config work.program file (parse text) ≠ [] → ∀ name ∈ names,
    work.state.registry.lookup? name = none → ∀ relative path origin,
    (work.table.poll mail).resolve name = .found relative →
    config.modulePath? file relative = some path → wanted ⟨path, none, origin⟩

theorem Covers.concerns [Parser] {other : String} (h : Covers config mail wanted work file text)
    (hconcerns : Concerns config mail wanted other work next) :
    Covers config mail wanted next file text := by
  unfold Covers
  rw [hconcerns.sites, hconcerns.advances.registry, hconcerns.advances.polled]
  exact h

/-! ### The first entry function -/

/-- Another file's places are not written to when a name is bound. -/
theorem Ready.not_siteWrites [Parser] {other : String} {place : Place} (h : Ready config work)
    (hsite : SiteIn work.program.locals site)
    (hobject : work.state.importsObject? site.file = some object) (hother : other ≠ site.file)
    (hbelongs : Belongs work other place) :
    ¬siteWrites work.program.locals site object place := by
  rintro ⟨name, hwrites⟩
  cases place with
  | ofVariable of =>
    obtain ⟨item, hitem, hof⟩ := hwrites
    obtain ⟨target, hfile, htarget⟩ := hsite.aliases item hitem
    have heq := h.sound.distinct (.ofVariable of) (.ofVariable target) item.2 hof htarget
    injection heq with heq
    subst heq
    exact hother (hbelongs.symm.trans hfile)
  | member owner key =>
    obtain ⟨rfl, _⟩ := hwrites
    exact hother (h.apart other site.file owner hbelongs hobject)
  | result function => exact hwrites
  | property owner key =>
    obtain ⟨rfl, _⟩ := hwrites
    obtain ⟨of, hfile, hof⟩ := hbelongs
    obtain ⟨imports, hfile', himports⟩ := hsite.imports
    have heq := h.sound.distinct (.ofVariable of) (.ofVariable imports) site.imports hof himports
    injection heq with heq
    subst heq
    exact hother (hfile.symm.trans hfile')

/-- What the enumeration of a value's members is set to. -/
def enumerating (names : List String) (held : AbstractValue) : AbstractValue :=
  { held with enumeration := some names }

def Work.finish (work : Work) (site : ConsumerSite) (binding : ImportsBinding) : Work :=
  { work.withStore (work.program.store.modifyValue site.imports (enumerating binding.resolved)) with
    state := work.state.storeBinding binding }

theorem Work.advances_finish (mail : Mail) (wanted : PendingFile → Prop) (work : Work)
    (site : ConsumerSite) (binding : ImportsBinding) :
    work.Advances mail wanted (work.finish site binding) :=
  ⟨⟨[], by simp, by rw [List.append_nil]; rfl⟩, rfl, fun _ => id, fun _ => id, id, Or.inl rfl,
    fun horderly => horderly.of_same rfl rfl⟩

theorem bound?_storeBinding (state : State) (binding : ImportsBinding) (name : String) :
    (state.storeBinding binding).bound? binding.file name = binding.type? name := by
  unfold State.bound? State.binding? State.storeBinding
  simp [Keyed.get?_put_self]

variable [Parser]

/-- An entry function that is told apart from the one at a site by what is true of its aliases:
    none of the site's aliases is its parameter `imports`. -/
theorem ne_alias_of_leavesImports {entry : Entry} {item : String × ValueId} {value : ValueId}
    (hsound : work.program.store.Sound work.program.locals)
    (hsite : site ∈ sites config work.program file (parse text))
    (hentry : entry ∈ entries [config.consumerEntry] (parse text))
    (hleaves : LeavesImports file text entry) (hitem : item ∈ site.aliases)
    (hvalue : work.program.localValue? file entry.node.id importsParameter = some value) :
    item.2 ≠ value := by
  rintro rfl
  obtain ⟨other, hother, hlocate⟩ := List.mem_filterMap.1 hsite
  obtain ⟨_, _, haliases⟩ := locate?_eq_some hlocate
  obtain ⟨named, hnamed, halias⟩ := haliases item hitem
  have heq := hsound.distinct (.ofVariable ⟨file, entry.node.id, importsParameter⟩)
    (.ofVariable ⟨file, other.node.id, named.localName⟩) item.2 hvalue halias
  injection heq with heq
  injection heq with _ hid hname
  have hsame : entry = other := eq_of_id_eq (Parser.nodup_ids text) hentry hother hid
  subst hsame
  exact hleaves.2 named hnamed hname.symm

/-- No name is bound by writing to the parameter `imports` of an entry function that is told apart
    from the one at a site. -/
theorem not_siteWrites_of_leavesImports {entry : Entry}
    (hsound : work.program.store.Sound work.program.locals)
    (hsite : site ∈ sites config work.program file (parse text))
    (hentry : entry ∈ entries [config.consumerEntry] (parse text))
    (hleaves : LeavesImports file text entry) :
    ¬siteWrites work.program.locals site object
      (.ofVariable ⟨file, entry.node.id, importsParameter⟩) := by
  rintro ⟨_, item, hitem, hvalue⟩
  exact ne_alias_of_leavesImports hsound hsite hentry hleaves hitem hvalue rfl

/-- The parameters of a file's entry functions are told apart. -/
theorem imports_ne_of_sites {program : Program} {later : ConsumerSite} {rest : List ConsumerSite}
    (hsound : program.store.Sound program.locals)
    (hsites : sites config program file (parse text) = site :: rest) (hlater : later ∈ rest) :
    later.imports ≠ site.imports := by
  have hnodup : ((sites config program file (parse text)).map ConsumerSite.imports).Nodup :=
    nodup_sites (Parser.nodup_ids text) hsound
  rw [hsites, List.map_cons, List.nodup_cons] at hnodup
  intro hsame
  exact hnodup.1 (hsame ▸ List.mem_map_of_mem hlater)

def Work.withBinding (work : Work) (binding : ImportsBinding) : Work :=
  { work with state := work.state.storeBinding binding }

/-- What is bound to a name once the binding is stored is what its members show. -/
theorem bound?_withBinding {bound : Work} (hattached : Attached config work file text)
    (hnames : (declaration .consumes config.entryNames (parse text)).names? = some names)
    (name : String) :
    (bound.withBinding (.ofNames file work.state.registry.lookup? names)).state.bound? file name =
      shownAfter work.state.registry.lookup? names (work.state.bound? file) name := by
  have hstored := bound?_storeBinding bound.state
    (.ofNames file work.state.registry.lookup? names) name
  rw [ImportsBinding.file_ofNames, ImportsBinding.type?_ofNames] at hstored
  refine hstored.trans ?_
  unfold shownAfter
  split
  · rfl
  · rename_i hname
    exact (hattached.undeclared_name names hnames name hname).symm

/-- Binding the names of a site takes back nothing but what is bound no longer. -/
theorem Attaching.retains {rest : List ConsumerSite} {bound : Work}
    (hattached : Attached config work site.file text)
    (hfile : work.program.file? site.file = some (.ofText site.file text))
    (hnames : (declaration .consumes config.entryNames (parse text)).names? = some names)
    (hsites : sites config work.program site.file (parse text) = site :: rest)
    (hobject : work.state.importsObject? site.file = some object)
    (hattaching : Attaching mail wanted site object
      (shownAfter work.state.registry.lookup? names (work.state.bound? site.file)) work bound) :
    Retains config work
      (bound.withBinding (.ofNames site.file work.state.registry.lookup? names)) := by
  let binding := ImportsBinding.ofNames site.file work.state.registry.lookup? names
  have hobjects : (bound.withBinding binding).state.importsObjects = work.state.importsObjects :=
    hattaching.others.state.importsObjects
  have hbound : ∀ name, (bound.withBinding binding).state.bound? site.file name =
      shownAfter work.state.registry.lookup? names (work.state.bound? site.file) name :=
    bound?_withBinding hattached hnames
  refine ⟨fun value hvalue => hvalue.touches hobjects hattaching.locals hattaching.touches, ?_, ?_⟩
  · intro file name
    by_cases heq : file = site.file
    · rw [heq, hbound]
      exact (shownAfter_eq_or _ names _ name).symm
    · left
      have hsame : (bound.withBinding binding).state.binding? file = work.state.binding? file := by
        refine (Keyed.get?_put_of_ne _ _ ?_).trans (hattaching.binding? file)
        rw [ImportsBinding.file_ofNames]
        exact heq
      unfold State.bound?
      rw [hsame]
  · intro value type hvalue hheld hkept
    refine hattaching.owed value type (hvalue.mono ?_) ⟨Or.inl hheld, ?_⟩
    · intro place hplace
      cases place with
      | ofVariable of => exact hplace
      | member owner name =>
        cases hplace
        exact ⟨site.file, hobject⟩
      | result function => exact hplace
      | property owner name => exact hplace
    · intro name hstands hbefore
      rw [← hbound]
      exact hkept site.file name ⟨text, names, site, rest, hfile, hnames,
        hattached.declared hnames hbefore, hsites, hstands⟩ hbefore

/-- Once the names of a site are bound and the binding is stored, the file is attached again. -/
theorem Attaching.attached_withBinding {rest : List ConsumerSite} {bound : Work}
    (h : Ready config work) (hattached : Attached config work site.file text)
    (hnames : (declaration .consumes config.entryNames (parse text)).names? = some names)
    (hsites : sites config work.program site.file (parse text) = site :: rest)
    (hobject : work.state.importsObject? site.file = some object)
    (hattaching : Attaching mail wanted site object
      (shownAfter work.state.registry.lookup? names (work.state.bound? site.file)) work bound) :
    Attached config (bound.withBinding (.ofNames site.file work.state.registry.lookup? names))
      site.file text := by
  let stored := bound.withBinding (.ofNames site.file work.state.registry.lookup? names)
  have hsite : site ∈ sites config work.program site.file (parse text) := by simp [hsites]
  have hlocals : stored.program.locals = work.program.locals := hattaching.locals
  have hstoredSites : sites config stored.program site.file (parse text) = site :: rest := by
    rw [← hsites]
    exact sites_of_get? _
      (congrArg (fun table : Keyed LoadedFile => table.get? site.file) hattaching.others.files)
  have hstoredObject : stored.state.importsObject? site.file = some object :=
    (hattaching.importsObject? site.file).trans hobject
  have hregistry : stored.state.registry = work.state.registry := hattaching.registry
  have hbound : ∀ name, stored.state.bound? site.file name =
      shownAfter work.state.registry.lookup? names (work.state.bound? site.file) name :=
    bound?_withBinding hattached hnames
  -- whatever is bound now is registered, or was bound before
  have hlookup : ∀ name, stored.state.bound? site.file name = work.state.registry.lookup? name ∨
      stored.state.bound? site.file name = work.state.bound? site.file name := by
    intro name
    rw [hbound]
    exact shownAfter_eq_or _ names _ name
  constructor
  case unbound =>
    intro hnone
    rw [hstoredObject] at hnone
    cases hnone
  case undeclared =>
    rintro (hundeclared | hnosites)
    · rw [hnames] at hundeclared
      cases hundeclared
    · rw [hstoredSites] at hnosites
      cases hnosites
  case undeclared_name =>
    intro others hothers name hname
    rw [hnames] at hothers
    cases hothers
    rw [hbound]
    unfold shownAfter
    rw [if_neg hname]
    exact hattached.undeclared_name names hnames name hname
  case registered =>
    intro name hnone
    rw [hregistry] at hnone
    rcases hlookup name with heq | heq
    · rw [heq, hnone]
    · rw [heq]
      exact hattached.registered name hnone
  case foreign =>
    intro made name hmade
    rw [hstoredObject] at hmade
    cases hmade
    rcases hlookup name with heq | heq
    · rw [heq]
      exact h.foreign site.file object name hobject
    · rw [heq]
      exact hattached.foreign object name hobject
  case member =>
    intro made name hmade
    rw [hstoredObject] at hmade
    cases hmade
    rw [hbound, hlocals]
    exact hattaching.member name
  case first =>
    intro other others heq name
    rw [hstoredSites] at heq
    cases heq
    rw [hbound, hlocals]
    exact hattaching.property name
  case rest =>
    intro other others heq later hlater name
    rw [hstoredSites] at heq
    cases heq
    have hout : ¬siteWrites work.program.locals site object (.property later.imports name) := by
      rintro ⟨_, hwrites, _⟩
      exact imports_ne_of_sites h.sound hsites hlater hwrites
    rw [hlocals]
    exact (hattaching.touches.place?_outside hout).trans
      (hattached.rest site rest hsites later hlater name)
  case imports =>
    intro entry hentry hleaves value hvalue
    have hbefore : work.program.localValue? site.file entry.node.id importsParameter =
        some value :=
      (congrFun hlocals ⟨site.file, entry.node.id, importsParameter⟩).symm.trans hvalue
    have hplace : work.program.store.place? work.program.locals
        (.ofVariable ⟨site.file, entry.node.id, importsParameter⟩) = some value := hbefore
    have hstay : stored.program.store.typesOf value = work.program.store.typesOf value :=
      (hattaching.touches.types_outside h.sound hplace
        (not_siteWrites_of_leavesImports h.sound hsite hentry hleaves)).1
    rw [hstay, hstoredObject, ← hobject]
    exact hattached.imports entry hentry hleaves value hbefore
  case aliases =>
    intro others hothers found rest' hfound name value hvalue hsole type htype
    rw [hnames] at hothers
    cases hothers
    rw [hstoredSites] at hfound
    cases hfound
    rw [hbound] at htype
    obtain ⟨_, _, hlocate⟩ := List.mem_filterMap.1 hsite
    obtain ⟨of, _, hof⟩ := variable_of_mem_named (siteIn_of_locate? hlocate) hvalue
    have hout : Store.Outside work.program.locals (memberOf (· = object)) work.program.store
        value :=
      h.sound.outside (show work.program.store.place? work.program.locals (.ofVariable of) = _
        from hof) id
    refine hattaching.owed value type hout ⟨?_, ?_⟩
    · by_cases hbefore : work.state.bound? site.file name = some type
      · exact Or.inl
          (hattached.aliases names hnames site rest hsites name value hvalue hsole type hbefore)
      · exact Or.inr ⟨name, hvalue, hbefore, htype⟩
    · intro other hother hbefore
      rw [hsole other (hattached.declared hnames hbefore) hother]
      exact htype

theorem Attaching.attached {rest : List ConsumerSite} {bound : Work} (h : Ready config work)
    (hattached : Attached config work site.file text)
    (hnames : (declaration .consumes config.entryNames (parse text)).names? = some names)
    (hsites : sites config work.program site.file (parse text) = site :: rest)
    (hobject : work.state.importsObject? site.file = some object)
    (hattaching : Attaching mail wanted site object
      (shownAfter work.state.registry.lookup? names (work.state.bound? site.file)) work bound) :
    Attached config (bound.finish site (.ofNames site.file work.state.registry.lookup? names))
      site.file text := by
  have hsite : site ∈ sites config work.program site.file (parse text) := by simp [hsites]
  obtain ⟨_, _, hlocate⟩ := List.mem_filterMap.1 hsite
  obtain ⟨importsVariable, _, hvariable⟩ := (siteIn_of_locate? hlocate).imports
  rw [← hattaching.locals] at hvariable
  have hsound : bound.program.store.Sound bound.program.locals := by
    rw [hattaching.locals]
    exact hattaching.sound
  have hstored := hattaching.attached_withBinding h hattached hnames hsites hobject
  exact hstored.write hsound hvariable (fun _ => rfl) fun _ => Or.inl rfl

theorem Ready.finish {rest : List ConsumerSite} {bound : Work} (h : Ready config work)
    (hfile : work.program.file? site.file = some (.ofText site.file text))
    (hnames : (declaration .consumes config.entryNames (parse text)).names? = some names)
    (hsites : sites config work.program site.file (parse text) = site :: rest)
    (hobject : work.state.importsObject? site.file = some object)
    (hattaching : Attaching mail wanted site object
      (shownAfter work.state.registry.lookup? names (work.state.bound? site.file)) work bound) :
    Concerns config mail wanted site.file work
      (bound.finish site (.ofNames site.file work.state.registry.lookup? names)) := by
  let binding := ImportsBinding.ofNames site.file work.state.registry.lookup? names
  let last := bound.finish site binding
  have hsite : site ∈ sites config work.program site.file (parse text) := by simp [hsites]
  obtain ⟨_, _, hlocate⟩ := List.mem_filterMap.1 hsite
  have hin := siteIn_of_locate? hlocate
  obtain ⟨importsVariable, hvariableFile, hvariable⟩ := hin.imports
  have hvariables : last.program.locals = work.program.locals := hattaching.locals
  have hadvances : work.Advances mail wanted last :=
    hattaching.advances.trans (Work.advances_finish mail wanted bound site binding)
  have htouches : Store.Touches work.program.locals
      (fun place => siteWrites work.program.locals site object place ∨
        place = .ofVariable importsVariable) object work.program.store last.program.store := by
    refine (hattaching.touches.mono fun _ => Or.inl).trans ?_
    exact .modifyValue (fun _ => rfl) (Or.inr rfl) hvariable
  have hkeeps : ∀ other, other ≠ site.file → Keeps mail other work last := by
    intro other hother
    have hput : ∀ {α : Type} (table : Keyed α) (value : α),
        (table.put binding.file value).get? other = table.get? other := by
      intro α table value
      rw [ImportsBinding.file_ofNames]
      exact Keyed.get?_put_of_ne table value hother
    refine .of_touches hadvances ?_ ?_ ?_ h.sound htouches ?_
    · exact hattaching.importsObject? other
    · exact (hput _ _).trans (congrArg (fun table : Keyed ImportsBinding => table.get? other)
        hattaching.others.state.bindings)
    · exact (hput _ _).trans (congrArg (fun table : Keyed FileStage => table.get? other)
        hattaching.others.state.stages)
    · rintro place hbelongs (hwrites | rfl)
      · exact h.not_siteWrites hin hobject hother hbelongs hwrites
      · exact hother (hbelongs.symm.trans hvariableFile)
  have hobjects : last.state.importsObjects = work.state.importsObjects :=
    hattaching.others.state.importsObjects
  have hretains : Retains config work last := by
    have henumerates : Store.Touches bound.program.locals (· = .ofVariable importsVariable) object
        bound.program.store last.program.store :=
      .modifyValue (fun _ => rfl) rfl (hattaching.locals ▸ hvariable)
    exact (hattaching.retains (h.attached hfile) hfile hnames hsites hobject).grows
      (fun _ hvalue => hvalue.touches rfl rfl henumerates) (fun _ _ => rfl)
      fun _ _ => Store.mem_typesOf_modifyValue fun _ => id
  refine ⟨hadvances, hkeeps, .of_touches hobjects h.sound htouches ?_, hretains,
    h.touch hadvances hobjects ?_ htouches hkeeps ?_⟩
  · intro type hforeign
    have hne : type ≠ object := by
      rintro rfl
      refine hforeign site.file ?_
      unfold State.importsObject?
      rw [hobjects]
      exact hobject
    refine ⟨hne, ?_, ?_⟩
    · rintro name (⟨_, howner, _⟩ | ⟨⟨⟩⟩)
      exact hne howner
    · rintro (⟨_, ⟨⟩⟩ | ⟨⟨⟩⟩)
  · rw [hvariables]
    refine hattaching.sound.modifyValue (fun _ => rfl) ?_
    intro held type ht
    exact Or.inl ht
  · intro other hattached hother
    rw [hfile] at hother
    cases hother
    exact hattaching.attached h hattached hnames hsites hobject

omit [Parser] in
theorem run_enumerate {held : AbstractValue} (binding : ImportsBinding)
    (hheld : work.program.store.value? site.imports = some held) :
    (do Resolve.onStore (·.setEnumeration site.imports binding.resolved)
        return binding : Resolve ImportsBinding).runOn work =
      (.ok binding, work.withStore
        (work.program.store.modifyValue site.imports (enumerating binding.resolved))) :=
  runOn_bind (run_setEnumeration hheld)

/-- The imports object of a file is there or is made, and is put among the types of a parameter. -/
theorem Ready.offer (h : Ready config work) (mail : Mail) (wanted : PendingFile → Prop)
    (hin : SiteIn work.program.locals site) :
    ∃ object made offered, (Resolver.importsObject site.file).runOn work = (.ok object, made) ∧
      (Resolve.addType site.imports object).runOn made = (.ok (), offered) ∧
      Concerns config mail wanted site.file work offered ∧
      offered.state.importsObject? site.file = some object ∧
      object ∈ offered.program.store.typesOf site.imports := by
  obtain ⟨importsVariable, hvariableFile, hvariable⟩ := hin.imports
  obtain ⟨object, made, hrunMade, hobject, hmade⟩ := h.importsObject mail wanted site.file
  have hmadeVariable : made.program.locals importsVariable = some site.imports := by
    rw [hmade.advances.locals]
    exact hvariable
  obtain ⟨held, hheld⟩ := made.program.store.exists_value?
    (hmade.ready.sound.placed (.ofVariable importsVariable) _ hmadeVariable)
  refine ⟨object, made, made.withStore
    (made.program.store.modifyValue site.imports (Store.withType object)), hrunMade,
    run_addType (hmade.ready.lt_object hobject) hheld, hmade.trans ?_, hobject, ?_⟩
  · have hwrite := hmade.ready.write mail wanted (Store.withType object) hmadeVariable
      fun _ => rfl
    rw [hvariableFile] at hwrite
    exact hwrite fun _ => Or.inr ⟨object, hobject, rfl⟩
  · rw [store_withStore, Store.typesOf_modifyValue_self hheld]
    exact Store.mem_insertNew.2 (Or.inr rfl)

/-- Once the binding of the first site is complete, the file is bound as far as this site. -/
theorem Attaching.bound {bound : Work}
    (hattached : Attached config work site.file text) (hin : SiteIn work.program.locals site)
    (hobject : work.state.importsObject? site.file = some object)
    (hholds : object ∈ work.program.store.typesOf site.imports)
    (hattaching : Attaching mail wanted site object
      (shownAfter work.state.registry.lookup? names (work.state.bound? site.file)) work bound)
    (hhandled : ∀ name ∈ names, work.state.registry.lookup? name = none →
      Handled config mail name site.file bound) :
    Bound config mail (bound.finish site (.ofNames site.file work.state.registry.lookup? names))
      site.file names [site] object := by
  let binding := ImportsBinding.ofNames site.file work.state.registry.lookup? names
  have hregistry : (bound.finish site binding).state.registry = work.state.registry :=
    hattaching.registry
  constructor
  case binding =>
    rw [hregistry]
    change (Keyed.put _ binding.file binding).get? site.file = _
    rw [ImportsBinding.file_ofNames, Keyed.get?_put_self]
  case stage =>
    change (Keyed.put _ binding.file FileStage.bound).get? site.file = _
    rw [ImportsBinding.file_ofNames, Keyed.get?_put_self]
  case has_object => exact (hattaching.importsObject? site.file).trans hobject
  case marked =>
    intro other hother
    rw [List.mem_singleton.1 hother, hregistry]
    have hkept : object ∈ bound.program.store.typesOf site.imports :=
      hattaching.keeps site.imports object hholds
        fun name => hattached.foreign object name hobject
    obtain ⟨importsVariable, _, hvariable⟩ := hin.imports
    obtain ⟨held, hheld⟩ := bound.program.store.exists_value?
      (hattaching.sound.placed (.ofVariable importsVariable) site.imports hvariable)
    rw [Store.typesOf_eq _ hheld] at hkept
    change object ∈ (Store.modifyValue _ site.imports _).typesOf site.imports ∧
      (Store.modifyValue _ site.imports _).enumeration? site.imports = _
    rw [Store.typesOf_modifyValue_self hheld, Store.enumeration?_modifyValue_self hheld]
    exact ⟨hkept, rfl⟩
  case handled =>
    intro name hname hnone
    rw [hregistry] at hnone
    exact (hhandled name hname hnone).advances
      (Work.advances_finish mail wanted bound site binding)

/-- Binding the first entry function of a file. -/
theorem Ready.bindSite {rest : List ConsumerSite} (h : Ready config work)
    (hfile : work.program.file? site.file = some (.ofText site.file text))
    (hnames : (declaration .consumes config.entryNames (parse text)).names? = some names)
    (hsites : sites config work.program site.file (parse text) = site :: rest)
    (hcovers : Covers config mail wanted work site.file text) :
    ∃ object next, (Resolver.bindSite config mail names site).runOn work = (.ok (), next) ∧
      Concerns config mail wanted site.file work next ∧
      Bound config mail next site.file names [site] object := by
  have hsite : site ∈ sites config work.program site.file (parse text) := by simp [hsites]
  obtain ⟨_, _, hlocate⟩ := List.mem_filterMap.1 hsite
  have hin := siteIn_of_locate? hlocate
  obtain ⟨object, made, offered, hrunMade, hrunOffered, hoffered, hobject, hholds⟩ :=
    h.offer mail wanted hin
  have hofferedSites : sites config offered.program site.file (parse text) = site :: rest :=
    (hoffered.sites site.file (parse text)).trans hsites
  have hofferedFile : offered.program.file? site.file = some (.ofText site.file text) :=
    (hoffered.file? site.file).trans hfile
  have hattached := hoffered.ready.attached hofferedFile
  rw [← hoffered.advances.locals] at hin
  -- the names are bound one after the other
  have hstart : Attaching mail wanted site object (offered.state.bound? site.file) offered
      offered :=
    ⟨.refl mail wanted offered, hoffered.ready.sound, .refl _ _ _ _,
      hattached.first site rest hofferedSites,
      fun name => hattached.member object name hobject, fun _ _ ht _ => ht,
      fun _ _ _ howed => howed.given.resolve_right fun ⟨_, _, hfree, hnow⟩ => hfree hnow⟩
  obtain ⟨bound, hrunBound, hattaching, hhandled⟩ := hstart.bindNames (.empty site.file) hin
    (hoffered.ready.object site.file object hobject) hoffered.ready.registered
    hattached.registered (fun _ => Or.inl rfl)
    ((hcovers.concerns hoffered) names hnames (by simp [hofferedSites]))
  -- the enumeration and the binding are set
  let binding := ImportsBinding.ofNames site.file offered.state.registry.lookup? names
  obtain ⟨importsVariable, _, hvariable⟩ := hin.imports
  obtain ⟨held, hheld⟩ := bound.program.store.exists_value?
    (hattaching.sound.placed (.ofVariable importsVariable) site.imports hvariable)
  have hentry : (bindEntry config mail site names).runOn work = (.ok binding, bound.withStore
      (bound.program.store.modifyValue site.imports (enumerating binding.resolved))) :=
    (runOn_bind hrunMade).trans ((runOn_bind hrunOffered).trans
      ((runOn_bind hrunBound).trans (run_enumerate binding hheld)))
  have hfinish := hoffered.ready.finish hofferedFile hnames hofferedSites hobject hattaching
  refine ⟨object, bound.finish site binding, runOn_bind hentry, hoffered.trans hfinish, ?_⟩
  exact hattaching.bound hattached hin hobject hholds
    fun name hname hnone => hhandled name hnone (Or.inl hname)

/-! ### The entry functions after it -/

/-- What binding makes of the parameter of an entry function whose file is bound already. -/
def marking (object : TypeId) (names : List String) (held : AbstractValue) : AbstractValue :=
  enumerating names (Store.withType object held)

omit [Parser] in
theorem storeBinding_of_bound {done : List ConsumerSite}
    (h : Bound config mail work file names done object) :
    work.state.storeBinding (.ofNames file work.state.registry.lookup? names) = work.state := by
  unfold State.storeBinding
  rw [ImportsBinding.file_ofNames, Keyed.put_of_get? h.stage, Keyed.put_of_get? h.binding]

omit [Parser] in
theorem bound?_of_bound {done : List ConsumerSite} {name : String}
    (h : Bound config mail work file names done object) (hname : name ∈ names) :
    work.state.bound? file name = work.state.registry.lookup? name := by
  unfold State.bound?
  rw [h.binding, Option.bind_some, ImportsBinding.type?_ofNames, if_pos hname]

/-- Binding an entry function of a file that is bound: nothing but the parameter is written to. -/
theorem Ready.run_bindSite {done : List ConsumerSite} (h : Ready config work)
    (hbound : Bound config mail work site.file names done object)
    (hin : SiteIn work.program.locals site) :
    (Resolver.bindSite config mail names site).runOn work =
      (.ok (), work.withStore (work.program.store.modifyValue site.imports (marking object
        (ImportsBinding.ofNames site.file work.state.registry.lookup? names).resolved))) := by
  let binding := ImportsBinding.ofNames site.file work.state.registry.lookup? names
  obtain ⟨of, _, himports⟩ := hin.imports
  obtain ⟨held, hheld⟩ := work.program.store.exists_value?
    (h.sound.placed (.ofVariable of) site.imports himports)
  let added := work.withStore
    (work.program.store.modifyValue site.imports (Store.withType object))
  have hrunAdded : (Resolve.addType site.imports object).runOn work = (.ok (), added) :=
    run_addType (h.lt_object hbound.has_object) hheld
  have hadvances : work.Advances mail (fun _ => True) added := .withStore _ _ _ _
  have hrunNames : (bindNames config mail site object (.empty site.file) names).runOn added =
      (.ok binding, added) := by
    refine run_bindNames_again _ ?_ ?_
    · intro name hname
      have hsame := bound?_of_bound hbound hname
      exact hsame
    · intro name hname hnone
      exact (hbound.handled name hname hnone).advances hadvances
  have hheld' : added.program.store.value? site.imports = some (Store.withType object held) := by
    rw [store_withStore, Store.value?_modifyValue, if_pos rfl, hheld]
    rfl
  have hentry : (bindEntry config mail site names).runOn work = (.ok binding, added.withStore
      (added.program.store.modifyValue site.imports (enumerating binding.resolved))) :=
    (runOn_bind (run_importsObject hbound.has_object)).trans ((runOn_bind hrunAdded).trans
      ((runOn_bind hrunNames).trans (run_enumerate binding hheld')))
  refine (runOn_bind hentry).trans ?_
  rw [store_withStore, Store.modifyValue_modifyValue]
  change ((.ok () : Except StoreError Unit), ({ work.withStore _ with
    state := work.state.storeBinding binding } : Work)) = _
  rw [storeBinding_of_bound hbound]
  rfl

theorem Ready.bindSite_bound {done : List ConsumerSite} (h : Ready config work)
    (hbound : Bound config mail work site.file names done object)
    (hin : SiteIn work.program.locals site) :
    ∃ next, (Resolver.bindSite config mail names site).runOn work = (.ok (), next) ∧
      Concerns config mail wanted site.file work next ∧
      Bound config mail next site.file names (site :: done) object := by
  obtain ⟨of, hfile, himports⟩ := hin.imports
  let resolved := (ImportsBinding.ofNames site.file work.state.registry.lookup? names).resolved
  have hwrite := h.write mail wanted (marking object resolved) himports fun _ => rfl
  rw [hfile] at hwrite
  have hconcerns := hwrite fun _ => Or.inr ⟨object, hbound.has_object, rfl⟩
  refine ⟨_, h.run_bindSite hbound hin, hconcerns, hbound.binding, hbound.stage,
    hbound.has_object, ?_, ?_⟩
  · intro other hother
    change object ∈ (Store.modifyValue _ site.imports _).typesOf other.imports ∧
      (Store.modifyValue _ site.imports _).enumeration? other.imports = _
    by_cases heq : other.imports = site.imports
    · obtain ⟨held, hheld⟩ := work.program.store.exists_value?
        (h.sound.placed (.ofVariable of) site.imports himports)
      rw [heq, Store.typesOf_modifyValue_self hheld, Store.enumeration?_modifyValue_self hheld]
      exact ⟨Store.mem_insertNew.2 (Or.inr rfl), rfl⟩
    · rw [Store.typesOf_modifyValue_of_ne heq, Store.enumeration?_modifyValue_of_ne heq]
      rcases List.mem_cons.1 hother with rfl | hother
      · exact absurd rfl heq
      · exact hbound.marked other hother
  · intro name hname hnone
    exact (hbound.handled name hname hnone).advances hconcerns.advances

/-- Nothing happens to an entry function that is bound. -/
theorem Ready.run_bindSite_done {done : List ConsumerSite} (h : Ready config work)
    (hbound : Bound config mail work site.file names done object)
    (hin : SiteIn work.program.locals site) (hdone : site ∈ done) :
    (Resolver.bindSite config mail names site).runOn work = (.ok (), work) := by
  rw [h.run_bindSite hbound hin]
  obtain ⟨of, _, himports⟩ := hin.imports
  obtain ⟨held, hheld⟩ := work.program.store.exists_value?
    (h.sound.placed (.ofVariable of) site.imports himports)
  obtain ⟨hobject, henumeration⟩ := hbound.marked site hdone
  rw [Store.typesOf_eq _ hheld] at hobject
  unfold Store.enumeration? at henumeration
  rw [hheld, Option.bind_some] at henumeration
  have hfixed : marking object (ImportsBinding.ofNames site.file work.state.registry.lookup?
      names).resolved held = held := by
    unfold marking enumerating Store.withType
    rw [Store.insertNew_of_mem hobject, ← henumeration]
  rw [Store.modifyValue_of_fixed _ hheld hfixed, withStore_self]

/-! ### One file -/

omit [Parser] in
/-- Binding the entry functions of a file is binding its sites one after the other. -/
theorem run_forM_found {remains : List ConsumerSite → Work → Prop}
    (hstep : ∀ site rest work, remains (site :: rest) work →
      ∃ next, (bindSite config mail names site).runOn work = (.ok (), next) ∧
        next.program.files = work.program.files ∧ remains rest next)
    {found : List Entry}
    (h : remains (found.filterMap (ConsumerSite.locate? work.program file)) work) :
    ∃ next, (found.forM (bindFound config mail file names)).runOn work = (.ok (), next) ∧
      remains [] next := by
  induction found generalizing work with
  | nil => exact ⟨work, rfl, h⟩
  | cons entry rest ih =>
    have hget : (get : Resolve Work).runOn work = (.ok work, work) := rfl
    cases hlocate : ConsumerSite.locate? work.program file entry with
    | none =>
      rw [List.filterMap_cons, hlocate] at h
      obtain ⟨next, hrun, hremains⟩ := ih h
      refine ⟨next, ?_, hremains⟩
      have hfound : (bindFound config mail file names entry).runOn work = (.ok (), work) := by
        refine (runOn_bind hget).trans ?_
        rw [hlocate]
        rfl
      exact (runOn_bind hfound).trans hrun
    | some site =>
      rw [List.filterMap_cons, hlocate] at h
      obtain ⟨middle, hsite, hfiles, hmiddle⟩ := hstep site _ work h
      have hsame : middle.program.files.get? file = work.program.files.get? file := by
        rw [hfiles]
      rw [← locate?_of_get? hsame] at hmiddle
      obtain ⟨next, hrun, hremains⟩ := ih hmiddle
      refine ⟨next, ?_, hremains⟩
      have hfound : (bindFound config mail file names entry).runOn work = (.ok (), middle) := by
        refine (runOn_bind hget).trans ?_
        rw [hlocate]
        exact hsite
      exact (runOn_bind hfound).trans hrun

/-- What is known about files is the same. -/
structure State.Alike (before after : State) : Prop where
  registry : after.registry = before.registry
  objects : after.importsObjects = before.importsObjects
  bindings : after.bindings = before.bindings
  stages : after.stages = before.stages

omit [Parser] in
theorem State.Alike.keeps {state : State} (h : work.state.Alike state)
    (hadvances : work.Advances mail wanted { work with state := state }) (file : String) :
    Keeps mail file work { work with state := state } :=
  ⟨⟨rfl, fun name => by rw [h.registry]; exact id,
      congrArg (fun table : Keyed TypeId => table.get? file) h.objects,
      congrArg (fun table : Keyed ImportsBinding => table.get? file) h.bindings,
      fun _ _ => rfl, fun _ _ _ _ => ⟨rfl, rfl⟩⟩,
    h.registry, congrArg (fun table : Keyed FileStage => table.get? file) h.stages,
    hadvances.file, fun _ _ _ hhandled => hhandled.advances hadvances⟩

theorem Ready.withState {state : State} (h : Ready config work) (hstate : work.state.Alike state)
    (hadvances : work.Advances mail wanted { work with state := state }) (file : String) :
    Concerns config mail wanted file work { work with state := state } := by
  have hkeeps := hstate.keeps hadvances
  have hothers : ∀ other, other ≠ file → Keeps mail other work { work with state := state } :=
    fun other _ => hkeeps other
  have hsame : ∀ other, state.importsObject? other = work.state.importsObject? other :=
    fun other => congrArg (fun table : Keyed TypeId => table.get? other) hstate.objects
  have hpreserves : Preserves work { work with state := state } :=
    ⟨fun other object hobject => (hsame other).trans hobject,
      fun other object hobject => Or.inl ((hsame other).symm.trans hobject),
      fun type _ _ => .refl type _, Nat.le_refl _⟩
  have hunchanged : Store.Touches work.program.locals (fun _ => False) ⟨0⟩ work.program.store
      work.program.store := .refl _ _ _ _
  have hbound : ∀ other name, state.bound? other name = work.state.bound? other name :=
    fun other name => congrArg (fun table : Keyed ImportsBinding =>
      (table.get? other).bind (·.type? name)) hstate.bindings
  have hretains : Retains config work { work with state := state } :=
    (Retains.refl config work).grows
      (fun _ hvalue => hvalue.touches hstate.objects rfl hunchanged) hbound fun _ _ => id
  refine ⟨hadvances, hothers, hpreserves, hretains, h.touch hadvances hstate.objects h.sound
    hunchanged hothers ?_⟩
  intro text hattached _
  exact hattached.leaves (hkeeps file).toLeaves

/-- How far the entry functions of a file are bound: nothing is done yet, or all sites that do not
    remain are bound. -/
def BoundUpTo (config : Config) (mail : Mail) (wanted : PendingFile → Prop) (start : Work)
    (file : String) (names : List String) (all remaining : List ConsumerSite) (work : Work) :
    Prop :=
  (work = start ∧ remaining = all) ∨
    ∃ object done, Concerns config mail wanted file start work ∧
      Bound config mail work file names done object ∧
      (∀ site ∈ all, site ∈ done ∨ site ∈ remaining) ∧ ∀ site ∈ remaining, site ∈ all

theorem siteIn_of_mem_sites (hsite : site ∈ sites config work.program file (parse text)) :
    site.file = file ∧ SiteIn work.program.locals site := by
  obtain ⟨_, _, hlocate⟩ := List.mem_filterMap.1 hsite
  exact ⟨(locate?_eq_some hlocate).1, siteIn_of_locate? hlocate⟩

theorem Ready.bindSites (h : Ready config work)
    (hfile : work.program.file? file = some (.ofText file text))
    (hnames : (declaration .consumes config.entryNames (parse text)).names? = some names)
    (hcovers : Covers config mail wanted work file text) :
    ∃ next, ((entries [config.consumerEntry] (parse text)).forM
        (bindFound config mail file names)).runOn work = (.ok (), next) ∧
      BoundUpTo config mail wanted work file names (sites config work.program file (parse text))
        [] next := by
  refine run_forM_found ?_ (Or.inl ⟨rfl, rfl⟩)
  rintro site rest middle (⟨rfl, hall⟩ | ⟨object, done, hconcerns, hbound, hdone, hremaining⟩)
  · have hsite : site ∈ sites config middle.program file (parse text) := by simp [← hall]
    obtain ⟨rfl, _⟩ := siteIn_of_mem_sites hsite
    obtain ⟨object, next, hrun, hconcerns, hbound⟩ :=
      h.bindSite hfile hnames hall.symm hcovers
    refine ⟨next, hrun, hconcerns.advances.files, Or.inr ⟨object, [site], hconcerns, hbound, ?_⟩⟩
    rw [← hall]
    refine ⟨?_, fun other hother => List.mem_cons_of_mem _ hother⟩
    intro other hother
    rcases List.mem_cons.1 hother with rfl | hother
    · exact Or.inl List.mem_cons_self
    · exact Or.inr hother
  · obtain ⟨rfl, hin⟩ := siteIn_of_mem_sites (hremaining site (by simp))
    rw [← hconcerns.advances.locals] at hin
    obtain ⟨next, hrun, hnext, hbound'⟩ := hconcerns.ready.bindSite_bound hbound hin
    refine ⟨next, hrun, hnext.advances.files, Or.inr ⟨object, site :: done,
      hconcerns.trans hnext, hbound', ?_, ?_⟩⟩
    · intro other hother
      rcases hdone other hother with hmem | hmem
      · exact Or.inl (List.mem_cons_of_mem _ hmem)
      · rcases List.mem_cons.1 hmem with rfl | hmem
        · exact Or.inl List.mem_cons_self
        · exact Or.inr hmem
    · intro other hother
      exact hremaining other (List.mem_cons_of_mem _ hother)

omit [Parser] in
theorem Bound.mono {done fewer : List ConsumerSite}
    (h : Bound config mail work file names done object) (hfewer : ∀ site ∈ fewer, site ∈ done) :
    Bound config mail work file names fewer object :=
  ⟨h.binding, h.stage, h.has_object, fun site hsite => h.marked site (hfewer site hsite),
    h.handled⟩

/-- A file is left alone, or it declares what it consumes and has been bound. -/
def Passed (config : Config) (mail : Mail) (before after : Work) (file text : String) : Prop :=
  Keeps mail file before after ∨ ∃ names object,
    (declaration .consumes config.entryNames (parse text)).names? = some names ∧
    Bound config mail after file names [] object

theorem Passed.trans {before middle after : Work} (h : Passed config mail before middle file text)
    (h' : Passed config mail middle after file text) :
    Passed config mail before after file text := by
  rcases h' with hkeeps | hbound
  · rcases h with hkeeps' | ⟨names, object, hnames, hbound⟩
    · exact Or.inl (hkeeps'.trans hkeeps)
    · have hnone : ∀ site ∈ ([] : List ConsumerSite),
          site ∈ sites config middle.program file (parse text) := fun _ hsite => by cases hsite
      exact Or.inr ⟨names, object, hnames, hbound.keeps hkeeps hnone⟩
  · exact Or.inr hbound

/-- Nothing is done to a file that does not declare what it consumes. -/
theorem Passed.leaves {before after : Work} (h : Passed config mail before after file text)
    (hnone : (declaration .consumes config.entryNames (parse text)).names? = none) :
    Leaves file before after := by
  rcases h with hkeeps | ⟨names, _, hnames, _⟩
  · exact hkeeps.toLeaves
  · rw [hnone] at hnames
    cases hnames

/-- Binding a loaded file settles it. -/
theorem Ready.bindFile (h : Ready config work)
    (hfile : work.program.file? file = some (.ofText file text))
    (hcovers : Covers config mail wanted work file text) :
    ∃ next, (Resolver.bindFile config mail file).runOn work = (.ok (), next) ∧
      Concerns config mail wanted file work next ∧ Settled config mail next file text ∧
      Passed config mail work next file text := by
  let found := entries [config.consumerEntry] (parse text)
  have hget : (get : Resolve Work).runOn work = (.ok work, work) := rfl
  have hroot := SourceFile.root_ofText file text
  by_cases hempty : found = []
  · refine ⟨work, ?_, .refl mail wanted file h, ⟨?_, ?_⟩, Or.inl (.refl mail file work)⟩
    · refine (runOn_bind hget).trans ?_
      simp only [hfile, hroot]
      rw [if_pos (by simpa [found] using hempty)]
      rfl
    · intro hne
      exact absurd hempty hne
    · intro names _ hne
      unfold sites at hne
      simp [found] at hempty
      simp [hempty] at hne
  cases hnames : (declaration .consumes config.entryNames (parse text)).names? with
  | none =>
    let warning := Warning.consumesUndeclared config.consumerEntry
    let next : Work := { work with state := work.state.warnFile file warning }
    have hreports := reports_warnFile work.state file warning
    have hadvances : work.Advances mail wanted next :=
      ⟨⟨[], by simp, by rw [List.append_nil]⟩, hreports.registry, hreports.capability,
        hreports.file, hreports.table, Or.inl rfl, id⟩
    have hstate : work.state.Alike next.state :=
      ⟨hreports.registry, hreports.importsObjects, hreports.bindings, hreports.stages⟩
    refine ⟨next, ?_, h.withState hstate hadvances file, ⟨?_, ?_⟩,
      Or.inl (hstate.keeps hadvances file)⟩
    · refine (runOn_bind hget).trans ?_
      simp only [hfile, hroot, hnames]
      rw [if_neg (by simpa [found] using hempty)]
      rfl
    · intro _ _
      exact contains_warnFile _ _ _
    · intro names hsome _
      rw [hnames] at hsome
      cases hsome
  | some names =>
    have hrun : ∀ outcome, (found.forM (bindFound config mail file names)).runOn work = outcome →
        (Resolver.bindFile config mail file).runOn work = outcome := by
      intro outcome houtcome
      refine (runOn_bind hget).trans ?_
      simp only [hfile, hroot, hnames]
      rw [if_neg (by simpa [found] using hempty)]
      exact houtcome
    obtain ⟨next, hsites, hupTo⟩ := h.bindSites hfile hnames hcovers
    refine ⟨next, hrun _ hsites, ?_⟩
    rcases hupTo with ⟨rfl, hall⟩ | ⟨object, done, hconcerns, hbound, hdone, _⟩
    · refine ⟨.refl mail wanted file h, ⟨?_, ?_⟩, Or.inl (.refl mail file next)⟩
      · intro _ hnone
        rw [hnames] at hnone
        cases hnone
      · intro _ _ hne
        exact absurd hall.symm hne
    · refine ⟨hconcerns, ⟨?_, ?_⟩, Or.inr ⟨names, object, hnames, hbound.mono (by simp)⟩⟩
      · intro _ hnone
        rw [hnames] at hnone
        cases hnone
      · intro others hothers _
        rw [hnames] at hothers
        cases hothers
        refine ⟨object, hbound.mono ?_⟩
        intro site hsite
        rw [hconcerns.sites] at hsite
        exact (hdone site hsite).resolve_right (by simp)

/-- Binding a settled file changes nothing. -/
theorem Ready.bindFile_settled (h : Ready config work)
    (hfile : work.program.file? file = some (.ofText file text))
    (hsettled : Settled config mail work file text) :
    (Resolver.bindFile config mail file).runOn work = (.ok (), work) := by
  let found := entries [config.consumerEntry] (parse text)
  have hget : (get : Resolve Work).runOn work = (.ok work, work) := rfl
  have hroot := SourceFile.root_ofText file text
  refine (runOn_bind hget).trans ?_
  simp only [hfile, hroot]
  split
  · rfl
  rename_i hsome
  cases hnames : (declaration .consumes config.entryNames (parse text)).names? with
  | none =>
    have hwarned := hsettled.reported (by simpa using hsome) hnames
    change ((.ok () : Except StoreError Unit), ({ work with
      state := work.state.warnFile file (.consumesUndeclared config.consumerEntry) } : Work)) = _
    rw [warnFile_of_warned hwarned]
  | some names =>
    have hforM := @run_forM_found config mail file names work
      (fun remaining next => next = work ∧
        ∀ site ∈ remaining, site ∈ sites config work.program file (parse text)) ?_
      found ⟨rfl, fun _ => id⟩
    · obtain ⟨next, hrun, rfl, _⟩ := hforM
      exact hrun
    · rintro site rest _ ⟨rfl, hremaining⟩
      have hsite := hremaining site (by simp)
      obtain ⟨object, hbound⟩ := hsettled.bound names hnames (List.ne_nil_of_mem hsite)
      obtain ⟨rfl, hin⟩ := siteIn_of_mem_sites hsite
      exact ⟨_, h.run_bindSite_done hbound hin hsite, rfl, rfl,
        fun other hother => hremaining other (List.mem_cons_of_mem _ hother)⟩

/-! ### All files -/

/-- The work while the imports of a file are bound. -/
def Work.withOrigin (work : Work) (origin : Option String) : Work :=
  { work with state := { work.state with currentOrigin := origin } }

omit [Parser] in
theorem Work.advances_withOrigin (mail : Mail) (wanted : PendingFile → Prop) (work : Work)
    (origin : Option String) : work.Advances mail wanted (work.withOrigin origin) :=
  ⟨⟨[], by simp, by rw [List.append_nil]; rfl⟩, rfl, fun _ => id, fun _ => id, id, Or.inl rfl,
    fun horderly => horderly.of_same rfl rfl⟩

omit [Parser] in
theorem Work.keeps_withOrigin (mail : Mail) (work : Work) (origin : Option String)
    (file : String) : Keeps mail file work (work.withOrigin origin) := by
  have hstate : work.state.Alike (work.withOrigin origin).state := ⟨rfl, rfl, rfl, rfl⟩
  exact hstate.keeps (work.advances_withOrigin mail (fun _ => True) origin) file

theorem Ready.withOrigin (h : Ready config work) (mail : Mail) (wanted : PendingFile → Prop)
    (origin : Option String) (file : String) :
    Concerns config mail wanted file work (work.withOrigin origin) ∧
      Keeps mail file work (work.withOrigin origin) := by
  have hstate : work.state.Alike (work.withOrigin origin).state := ⟨rfl, rfl, rfl, rfl⟩
  exact ⟨h.withState hstate (work.advances_withOrigin mail wanted origin) file,
    work.keeps_withOrigin mail origin file⟩

omit [Parser] in
theorem bindFiles_cons {outcome : Except StoreError Unit} (rest : List String)
    (hrun : (Resolver.bindFile config mail file).runOn (work.withOrigin (some file)) =
      (outcome, next)) :
    Resolver.bindFiles config mail (file :: rest) work =
      Resolver.bindFiles config mail rest next := by
  change Resolver.bindFiles config mail rest
    ((Resolver.bindFile config mail file).runOn (work.withOrigin (some file))).2 = _
  rw [hrun]

/-- The first file of a pass is settled, and the pass goes on with the others. -/
theorem Ready.bindNext (h : Ready config work)
    (hfile : work.program.file? file = some (.ofText file text))
    (hcovers : Covers config mail wanted work file text) (rest : List String) :
    ∃ next, Resolver.bindFiles config mail (file :: rest) work =
        Resolver.bindFiles config mail rest next ∧
      Concerns config mail wanted file work next ∧ Settled config mail next file text ∧
      Passed config mail work next file text := by
  obtain ⟨horigin, hkept⟩ := h.withOrigin mail wanted (some file) file
  obtain ⟨next, hrun, hnext, hsettled, hpassed⟩ := horigin.ready.bindFile
    ((horigin.file? file).trans hfile) (hcovers.concerns horigin)
  have hstart : Passed config mail work (work.withOrigin (some file)) file text := Or.inl hkept
  exact ⟨next, bindFiles_cons rest hrun, horigin.trans hnext, hsettled, hstart.trans hpassed⟩

/-- After a pass over some files, these are settled, and so are those that were before. -/
theorem Ready.bindFiles {files : List String} (h : Ready config work)
    (hfiles : ∀ file ∈ files, (work.program.file? file).isSome = true)
    (hcovers : ∀ file ∈ files, ∀ text, work.program.file? file = some (.ofText file text) →
      Covers config mail wanted work file text) :
    Ready config (Resolver.bindFiles config mail files work) ∧
      work.Advances mail wanted (Resolver.bindFiles config mail files work) ∧
      Preserves work (Resolver.bindFiles config mail files work) ∧
      ∀ file text, work.program.file? file = some (.ofText file text) →
        (file ∈ files ∨ Settled config mail work file text →
          Settled config mail (Resolver.bindFiles config mail files work) file text) ∧
        Passed config mail work (Resolver.bindFiles config mail files work) file text := by
  induction files generalizing work with
  | nil =>
    refine ⟨h, .refl mail wanted work, .refl work, ?_⟩
    intro file text _
    refine ⟨?_, Or.inl (.refl mail file work)⟩
    rintro (hmem | hsettled)
    · cases hmem
    · exact hsettled
  | cons file rest ih =>
    obtain ⟨source, hsource⟩ := Option.isSome_iff_exists.1 (hfiles file (by simp))
    obtain ⟨text, rfl, _⟩ := h.loaded file source hsource
    obtain ⟨next, hbind, hstep, hsettled, hpassed⟩ :=
      h.bindNext hsource (hcovers file (by simp) text hsource) rest
    rw [hbind]
    have hloaded : ∀ other ∈ rest, (next.program.file? other).isSome = true := by
      intro other hother
      rw [hstep.file?]
      exact hfiles other (by simp [hother])
    have hcovered : ∀ other ∈ rest, ∀ text, next.program.file? other = some (.ofText other text) →
        Covers config mail wanted next other text := by
      intro other hother otherText hsome
      rw [hstep.file?] at hsome
      exact (hcovers other (by simp [hother]) otherText hsome).concerns hstep
    obtain ⟨hready, hadvances, hpreserves, hall⟩ := ih hstep.ready hloaded hcovered
    refine ⟨hready, hstep.advances.trans hadvances, hstep.preserves.trans hpreserves, ?_⟩
    intro other otherText hother
    obtain ⟨hrest, hpassed'⟩ := hall other otherText ((hstep.file? other).trans hother)
    by_cases heq : other = file
    · subst heq
      rw [hsource] at hother
      cases hother
      exact ⟨fun _ => hrest (Or.inr hsettled), hpassed.trans hpassed'⟩
    · have hstart : Passed config mail work next other otherText := Or.inl (hstep.keeps other heq)
      refine ⟨fun hor => hrest ?_, hstart.trans hpassed'⟩
      rcases hor with hmem | hdone
      · exact Or.inl ((List.mem_cons.1 hmem).resolve_left heq)
      · exact Or.inr (hdone.keeps (hstep.keeps other heq))

/-- What binding one file brings about, and goes on to hold of a pass that goes on from there, is
    true of a pass over some files. -/
theorem Ready.bindFiles_of_step {files : List String} {relation : Work → Work → Prop}
    (h : Ready config work) (mail : Mail)
    (hfiles : ∀ file ∈ files, (work.program.file? file).isSome = true)
    (hrefl : ∀ work, relation work work)
    (hstep : ∀ file ∈ files, ∀ before middle after,
      Concerns config mail (fun _ => True) file before middle → relation middle after →
      relation before after) :
    relation work (Resolver.bindFiles config mail files work) := by
  induction files generalizing work with
  | nil => exact hrefl work
  | cons file rest ih =>
    obtain ⟨source, hsource⟩ := Option.isSome_iff_exists.1 (hfiles file (by simp))
    obtain ⟨text, rfl, _⟩ := h.loaded file source hsource
    have hcovers : Covers config mail (fun _ => True) work file text :=
      fun _ _ _ _ _ _ _ _ _ _ _ => trivial
    obtain ⟨next, hbind, hnext, _⟩ := h.bindNext hsource hcovers rest
    rw [hbind]
    refine hstep file (by simp) work next _ hnext (ih hnext.ready ?_ ?_)
    · intro later hlater
      rw [hnext.file?]
      exact hfiles later (by simp [hlater])
    · exact fun later hlater => hstep later (by simp [hlater])

/-- A pass over some files leaves all others alone. -/
theorem Ready.keeps_bindFiles {files : List String} {other : String} (h : Ready config work)
    (mail : Mail) (hfiles : ∀ file ∈ files, (work.program.file? file).isSome = true)
    (hother : other ∉ files) :
    Keeps mail other work (Resolver.bindFiles config mail files work) := by
  refine h.bindFiles_of_step mail hfiles (.refl mail other) ?_
  rintro file hfile before middle after hconcerns hrest
  have hne : other ≠ file := by
    rintro rfl
    exact hother hfile
  exact (hconcerns.keeps other hne).trans hrest

/-- A pass over some files takes back nothing but what is bound no longer. -/
theorem Ready.retains_bindFiles {files : List String} (h : Ready config work) (mail : Mail)
    (hfiles : ∀ file ∈ files, (work.program.file? file).isSome = true) :
    Retains config work (Resolver.bindFiles config mail files work) :=
  h.bindFiles_of_step mail hfiles (.refl config)
    fun _ _ _ _ _ hconcerns hrest => hconcerns.retains.trans hrest hconcerns.advances

/-- Everything that the consumers among the loaded files lack, as far as the path table names it. -/
def Wanted (config : Config) (mail : Mail) (work : Work) (pending : PendingFile) : Prop :=
  ∃ file text names name relative,
    work.program.file? file = some (.ofText file text) ∧
    (declaration .consumes config.entryNames (parse text)).names? = some names ∧
    sites config work.program file (parse text) ≠ [] ∧ name ∈ names ∧
    work.state.registry.lookup? name = none ∧
    (work.table.poll mail).resolve name = .found relative ∧
    config.modulePath? file relative = some pending.path ∧ pending.text = none

theorem Wanted.advances {pending : PendingFile} {wanted : PendingFile → Prop} {before after : Work}
    (h : Wanted config mail before pending) (hadvances : before.Advances mail wanted after) :
    Wanted config mail after pending := by
  obtain ⟨file, text, names, name, relative, hfile, hnames, hsites, hname, hnone, hrelative, hpath,
    htext⟩ := h
  have hfiles := hadvances.files
  refine ⟨file, text, names, name, relative, ?_, hnames, ?_, hname, ?_, ?_, hpath, htext⟩
  · unfold Program.file?
    rw [hfiles]
    exact hfile
  · rw [sites_of_get? (parse text) (show after.program.files.get? file =
      before.program.files.get? file by rw [hfiles])]
    exact hsites
  · rw [hadvances.registry]
    exact hnone
  · rw [hadvances.polled]
    exact hrelative

omit [Parser] in
theorem isSome_file?_of_mem {program : Program} (hfile : file ∈ program.fileNames) :
    (program.file? file).isSome = true := by
  have hsome := (Keyed.mem_keys_iff _ _).1 hfile
  simpa [Program.file?] using hsome

/-- A pass over all consumers settles all loaded files. -/
theorem Ready.bindProgram (h : Ready config work) (mail : Mail) :
    Ready config (Resolver.bindProgram config mail work) ∧
      work.Advances mail (Wanted config mail work) (Resolver.bindProgram config mail work) ∧
      Preserves work (Resolver.bindProgram config mail work) ∧
      (Resolver.bindProgram config mail work).state.currentOrigin = none ∧
      ∀ file text, work.program.file? file = some (.ofText file text) →
        Settled config mail (Resolver.bindProgram config mail work) file text ∧
        Passed config mail work (Resolver.bindProgram config mail work) file text := by
  have hcovers : ∀ file ∈ work.program.fileNames, ∀ text,
      work.program.file? file = some (.ofText file text) →
      Covers config mail (Wanted config mail work) work file text := by
    intro file _ text hfile names hnames hsites name hname hnone relative path origin hrelative
      hpath
    exact ⟨file, text, names, name, relative, hfile, hnames, hsites, hname, hnone, hrelative, hpath,
      rfl⟩
  obtain ⟨hready, hadvances, hpreserves, hsettled⟩ :=
    h.bindFiles (fun _ => isSome_file?_of_mem) hcovers
  have horigin := fun file => hready.withOrigin mail (Wanted config mail work) none file
  refine ⟨(horigin "").1.ready, hadvances.trans (horigin "").1.advances,
    hpreserves.trans (horigin "").1.preserves, rfl, ?_⟩
  intro file text hfile
  have hmem : file ∈ work.program.fileNames := by
    refine (Keyed.mem_keys_iff _ _).2 ?_
    unfold Program.file? at hfile
    obtain ⟨loaded, hsome, _⟩ := Option.map_eq_some_iff.1 hfile
    rw [hsome]
    rfl
  obtain ⟨hdone, hpassed⟩ := hsettled file text hfile
  exact ⟨(hdone (Or.inl hmem)).keeps (horigin file).2, hpassed.trans (Or.inl (horigin file).2)⟩

/-- A pass over all consumers takes back nothing but what is bound no longer. -/
theorem Ready.retains_bindProgram (h : Ready config work) (mail : Mail) :
    Retains config work (Resolver.bindProgram config mail work) :=
  (h.retains_bindFiles mail fun _ => isSome_file?_of_mem).grows (fun _ => id) (fun _ _ => rfl)
    fun _ _ => id

/-- A pass over all consumers leaves files alone that are not loaded. -/
theorem Ready.keeps_bindProgram (h : Ready config work) (mail : Mail)
    (hunloaded : work.program.isLoaded file = false) :
    Keeps mail file work (Resolver.bindProgram config mail work) := by
  have hfile : file ∉ work.program.fileNames := by
    intro hmem
    have hloaded : work.program.isLoaded file = true := (Keyed.mem_keys_iff _ _).1 hmem
    rw [hunloaded] at hloaded
    cases hloaded
  exact (h.keeps_bindFiles mail (fun _ => isSome_file?_of_mem) hfile).trans
    (Work.keeps_withOrigin mail _ none file)

theorem Ready.bindFiles_settled {files : List String} (h : Ready config work)
    (hsettled : ∀ file ∈ files, ∃ text, work.program.file? file = some (.ofText file text) ∧
      Settled config mail work file text) (origin : Option String) :
    (Resolver.bindFiles config mail files work).withOrigin origin = work.withOrigin origin := by
  induction files generalizing work with
  | nil => rfl
  | cons file rest ih =>
    obtain ⟨text, hfile, hdone⟩ := hsettled file (by simp)
    have horigin := fun other => h.withOrigin mail (fun _ => True) (some file) other
    have hrun : (Resolver.bindFile config mail file).runOn (work.withOrigin (some file)) =
        (.ok (), work.withOrigin (some file)) :=
      (horigin file).1.ready.bindFile_settled hfile (hdone.keeps (horigin file).2)
    rw [bindFiles_cons rest hrun, ih (horigin file).1.ready]
    · rfl
    · intro other hother
      obtain ⟨text, hfile, hdone⟩ := hsettled other (by simp [hother])
      exact ⟨text, hfile, hdone.keeps (horigin other).2⟩

/-- Another pass changes nothing at all. -/
theorem Ready.bindProgram_settled (h : Ready config work)
    (horigin : work.state.currentOrigin = none)
    (hsettled : ∀ file ∈ work.program.fileNames, ∃ text,
      work.program.file? file = some (.ofText file text) ∧ Settled config mail work file text) :
    Resolver.bindProgram config mail work = work := by
  have hbound := h.bindFiles_settled hsettled none
  have hsame : work.withOrigin none = work := by
    unfold Work.withOrigin
    rw [← horigin]
  rw [hsame] at hbound
  exact hbound

end Capabilities.Resolver
