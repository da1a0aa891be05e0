import Capabilities.Proofs.Resolver.Attachment

/-!
# Binding the imports of one entry function

The declared names are bound one after the other. What the members show changes name by name from
what was bound before to what is registered now, and every name without a provider is handled on
the way. If everything was bound to what is registered already, the store stays as it is.
-/

namespace Capabilities.Resolver

open Host Session Capabilities.Types Capabilities.Module

/-! ### Between two names -/

variable {config : Config} {mail : Mail} {wanted : PendingFile → Prop}

theorem State.Reports.registry {before after : State} (h : before.Reports after) :
    after.registry = before.registry := by
  rw [h.same]

theorem State.Reports.currentOrigin {before after : State} (h : before.Reports after) :
    after.currentOrigin = before.currentOrigin := by
  rw [h.same]

theorem State.Reports.bindings {before after : State} (h : before.Reports after) :
    after.bindings = before.bindings := by
  rw [h.same]

theorem State.Reports.importsObjects {before after : State} (h : before.Reports after) :
    after.importsObjects = before.importsObjects := by
  rw [h.same]

theorem State.Reports.stages {before after : State} (h : before.Reports after) :
    after.stages = before.stages := by
  rw [h.same]

theorem Work.Asks.files {before after : Work} (h : before.Asks mail wanted after) :
    after.program.files = before.program.files := by
  obtain ⟨more, _, hmore⟩ := h.program
  rw [hmore]

theorem Work.Asks.store {before after : Work} (h : before.Asks mail wanted after) :
    after.program.store = before.program.store := by
  obtain ⟨more, _, hmore⟩ := h.program
  rw [hmore]

theorem Work.Asks.locals {before after : Work} (h : before.Asks mail wanted after) :
    after.program.locals = before.program.locals :=
  Program.locals_of_files h.files

theorem Work.Asks.withStore {before after : Work} (h : before.Asks mail wanted after)
    (store : Store) : (before.withStore store).Asks mail wanted (after.withStore store) := by
  obtain ⟨more, hwanted, hmore⟩ := h.program
  refine ⟨⟨more, hwanted, ?_⟩, h.state, h.table,
    fun horderly => (h.orderly (horderly.of_same rfl rfl)).of_same rfl rfl⟩
  simp only [Work.withStore, Program.withStore, hmore]

theorem Work.Advances.locals {before after : Work} (h : before.Advances mail wanted after) :
    after.program.locals = before.program.locals :=
  Program.locals_of_files h.files

theorem Work.Advances.withStore (mail : Mail) (wanted : PendingFile → Prop) (work : Work)
    (store : Store) : work.Advances mail wanted (work.withStore store) :=
  ⟨⟨[], by simp, by rw [List.append_nil]; rfl⟩, rfl, fun _ => id, fun _ => id, id, Or.inl rfl,
    fun horderly => horderly.of_same rfl rfl⟩

/-! ### One name -/

theorem run_resolveName {file name : String} {work : Work}
    (hwanted : work.state.registry.lookup? name = none → ∀ relative path origin,
      (work.table.poll mail).resolve name = .found relative →
      config.modulePath? file relative = some path → wanted ⟨path, none, origin⟩) :
    ∃ next, (resolveName config mail file name).runOn work =
        (.ok (work.state.registry.lookup? name), next) ∧ work.Asks mail wanted next ∧
      (work.state.registry.lookup? name = none → Handled config mail name file next) := by
  have hget : Resolve.state.runOn work = (.ok work.state, work) := rfl
  cases hlookup : work.state.registry.lookup? name with
  | some type =>
    refine ⟨work, ?_, .refl mail wanted work, ?_⟩
    · refine (runOn_bind hget).trans ?_
      simp only [hlookup]
      rfl
    · rintro ⟨⟩
  | none =>
    let next := (schedule config mail name file work).2
    have hasks : work.Asks mail wanted next :=
      asks_schedule fun relative path => hwanted hlookup relative path _
    refine ⟨next, ?_, hasks, fun _ => handled_schedule config mail name file work⟩
    refine (runOn_bind hget).trans ?_
    simp only [hlookup]
    have hmodify : (modify fun work => (schedule config mail name file work).2 :
        Resolve Unit).runOn work = (.ok (), next) := rfl
    refine (runOn_bind hmodify).trans ?_
    have hget' : Resolve.state.runOn next = (.ok next.state, next) := rfl
    refine (runOn_bind hget').trans ?_
    rw [hasks.state.registry, hlookup]
    rfl

/-- Resolving a name that is registered or handled changes nothing. -/
theorem run_resolveName_handled {file name : String} {work : Work}
    (h : work.state.registry.lookup? name = none → Handled config mail name file work) :
    (resolveName config mail file name).runOn work =
      (.ok (work.state.registry.lookup? name), work) := by
  have hget : Resolve.state.runOn work = (.ok work.state, work) := rfl
  refine (runOn_bind hget).trans ?_
  cases hlookup : work.state.registry.lookup? name with
  | some type => rfl
  | none =>
    have hmodify : (modify fun work => (schedule config mail name file work).2 :
        Resolve Unit).runOn work = (.ok (), work) := by
      change ((.ok () : Except StoreError Unit), (schedule config mail name file work).2) = _
      rw [schedule_of_handled (h hlookup)]
    refine (runOn_bind hmodify).trans ?_
    refine (runOn_bind hget).trans ?_
    rw [hlookup]
    rfl

/-! ### All names -/

def State.bound? (state : State) (file name : String) : Option TypeId :=
  (state.binding? file).bind (·.type? name)

/-- The places that binding names at a site writes to. -/
def siteWrites (locals : Variables) (site : ConsumerSite) (object : TypeId) (place : Place) :
    Prop :=
  ∃ name, nameWrites locals site object name place

/-- A type is owed to a value once the names show what `shown` says: the value had it or stands for
    a name that has come to show it, and none of the names it stands for has lost it. -/
structure Owed (site : ConsumerSite) (shown : String → Option TypeId) (start : Work)
    (value : ValueId) (type : TypeId) : Prop where
  given : type ∈ start.program.store.typesOf value ∨ ∃ name, value ∈ named site name ∧
    start.state.bound? site.file name ≠ some type ∧ shown name = some type
  kept : ∀ name, value ∈ named site name → start.state.bound? site.file name = some type →
    shown name = some type

/-- The work has come from `start` by asking for providers and by writing to the places of a site,
    and both kinds of members show what `shown` says. -/
structure Attaching (mail : Mail) (wanted : PendingFile → Prop) (site : ConsumerSite)
    (object : TypeId) (shown : String → Option TypeId) (start work : Work) : Prop where
  others : start.Asks mail wanted (work.withStore start.program.store)
  sound : work.program.store.Sound start.program.locals
  touches : Store.Touches start.program.locals
    (siteWrites start.program.locals site object) object start.program.store
    work.program.store
  property : ∀ name, work.program.store.Shows start.program.locals
    (.property site.imports name) (shown name)
  member : ∀ name, work.program.store.Shows start.program.locals (.member object name)
    (shown name)
  keeps : ∀ value type, type ∈ start.program.store.typesOf value →
    (∀ name, start.state.bound? site.file name ≠ some type) →
    type ∈ work.program.store.typesOf value
  owed : ∀ value type, Store.Outside start.program.locals (memberOf (· = object))
      start.program.store value → Owed site shown start value type →
    type ∈ work.program.store.typesOf value

variable {site : ConsumerSite} {object : TypeId} {shown : String → Option TypeId}
  {start work next : Work}

theorem Attaching.asks (h : Attaching mail wanted site object shown start work)
    (hasks : work.Asks mail wanted next) : Attaching mail wanted site object shown start next := by
  refine ⟨h.others.trans (hasks.withStore _), ?_, ?_, ?_, ?_, ?_, ?_⟩
  all_goals rw [hasks.store]
  · exact h.sound
  · exact h.touches
  · exact h.property
  · exact h.member
  · exact h.keeps
  · exact h.owed

theorem Attaching.advances (h : Attaching mail wanted site object shown start work) :
    start.Advances mail wanted work :=
  h.others.advances.trans (.withStore mail wanted _ work.program.store)

theorem Attaching.locals (h : Attaching mail wanted site object shown start work) :
    work.program.locals = start.program.locals :=
  h.others.locals

theorem Attaching.registry (h : Attaching mail wanted site object shown start work) :
    work.state.registry = start.state.registry :=
  h.others.state.registry

theorem Attaching.binding? (h : Attaching mail wanted site object shown start work)
    (file : String) :
    work.state.binding? file = start.state.binding? file := by
  have hbindings : work.state.bindings = start.state.bindings := h.others.state.bindings
  simp only [State.binding?, hbindings]

theorem Attaching.importsObject? (h : Attaching mail wanted site object shown start work)
    (file : String) :
    work.state.importsObject? file = start.state.importsObject? file := by
  have hobjects : work.state.importsObjects = start.state.importsObjects :=
    h.others.state.importsObjects
  simp only [State.importsObject?, hobjects]

section Owed

variable {name : String} {type new : TypeId} {value : ValueId}

/-- What is owed once a name shows a type was owed before, or is that type. -/
theorem Owed.before
    (h : Owed site (fun other => if other = name then some new else shown other) start value type)
    (hbound : start.state.bound? site.file name ≠ some new)
    (hor : value ∉ named site name ∨ type ≠ new) : Owed site shown start value type := by
  have hshown : ∀ other, value ∈ named site other →
      (if other = name then some new else shown other) = some type → shown other = some type := by
    intro other hother heq
    split at heq
    · rename_i hsame
      cases heq
      exact absurd (hor.resolve_right (not_not_intro rfl)) (not_not_intro (hsame ▸ hother))
    · exact heq
  refine ⟨?_, fun other hother hheld => hshown other hother (h.kept other hother hheld)⟩
  rcases h.given with hheld | ⟨other, hother, hfree, hnow⟩
  · exact Or.inl hheld
  · exact Or.inr ⟨other, hother, hfree, hshown other hother hnow⟩

/-- What is owed was not bound to the name, if another type is to take its place. -/
theorem Owed.bound_ne
    (h : Owed site (fun other => if other = name then some new else shown other) start value type)
    (hmem : value ∈ named site name) (hne : type ≠ new) :
    start.state.bound? site.file name ≠ some type := by
  intro hbound
  have hnow := h.kept name hmem hbound
  rw [if_pos rfl] at hnow
  cases hnow
  exact hne rfl

end Owed

/-- One name after others: what is bound and what is registered may be shown before. -/
theorem Attaching.attach {name : String} {type : Option TypeId}
    (h : Attaching mail wanted site object shown start work)
    (hsite : SiteIn start.program.locals site)
    (hobject : (start.program.store.object? object).isSome = true)
    (htype : ∀ new, type = some new → new.index < start.program.store.types.size)
    (hbound : type = none → start.state.bound? site.file name = none)
    (hshown : shown name = start.state.bound? site.file name ∨ shown name = type) :
    ∃ store, (Resolver.attach site object name type).runOn work =
        (.ok (), work.withStore store) ∧
      Attaching mail wanted site object (fun other => if other = name then type else shown other)
        start (work.withStore store) := by
  have hsame : (work.state.binding? site.file).bind (·.type? name) =
      start.state.bound? site.file name := by
    rw [h.binding?]
    rfl
  by_cases heq : start.state.bound? site.file name = type
  · refine ⟨work.program.store, ?_, ?_⟩
    · rw [withStore_self]
      exact run_attach_same (hsame.trans heq)
    · have hnext : (fun other => if other = name then type else shown other) = shown := by
        funext other
        split
        · rename_i hother
          rw [hother, ← heq]
          rcases hshown with hshown | hshown
          · exact hshown.symm
          · rw [heq, hshown]
        · rfl
      rw [withStore_self, hnext]
      exact h
  · cases type with
    | none => exact absurd (hbound rfl) heq
    | some new =>
      have hvariables := h.locals
      have hrun := @run_attach work site object new name (shown name)
      rw [hvariables, hsame] at hrun
      obtain ⟨store, hattach, hsound, htouches, hproperty, hmember, hkeeps, hnamed⟩ :=
        hrun h.sound hsite (h.touches.object_stays hobject)
          (by rw [h.touches.types_size]; exact htype new rfl) heq hshown (h.property name)
          (h.member name)
      refine ⟨store, hattach, h.others, hsound, ?_, ?_, ?_, ?_, ?_⟩
      · refine h.touches.trans (htouches.mono ?_)
        intro place hplace
        exact ⟨name, hplace⟩
      · intro other
        by_cases hother : other = name
        · rw [hother, if_pos rfl]
          exact hproperty
        · rw [if_neg hother]
          refine htouches.shows h.sound ?_ (h.property other)
          rintro ⟨_, heq⟩
          exact hother heq
      · intro other
        by_cases hother : other = name
        · rw [hother, if_pos rfl]
          exact hmember
        · rw [if_neg hother]
          refine htouches.shows h.sound ?_ (h.member other)
          rintro ⟨_, heq⟩
          exact hother heq
      · intro value type ht hnever
        exact hkeeps value type (h.keeps value type ht hnever) (hnever name)
      · intro value type hout howed
        obtain ⟨hothers, hown⟩ := hnamed value (h.touches.outside hout)
        -- a variable of this name has the new type, and no other variable is written to
        by_cases hmem : value ∈ named site name
        · by_cases hsame : type = new
          · rw [hsame]
            exact hown hmem
          · exact hkeeps value type (h.owed value type hout (howed.before heq (Or.inr hsame)))
              (howed.bound_ne hmem hsame)
        · rw [store_withStore, hothers hmem]
          exact h.owed value type hout (howed.before heq (Or.inl hmem))

/-- What the names of a list show once they are bound. -/
def shownAfter (lookup : String → Option TypeId) (names : List String)
    (shown : String → Option TypeId) (name : String) : Option TypeId :=
  if name ∈ names then lookup name else shown name

theorem shownAfter_eq_or (lookup : String → Option TypeId) (names : List String)
    (shown : String → Option TypeId) (name : String) :
    shownAfter lookup names shown name = lookup name ∨
      shownAfter lookup names shown name = shown name := by
  unfold shownAfter
  split
  · exact Or.inl rfl
  · exact Or.inr rfl

theorem shownAfter_nil (lookup : String → Option TypeId) (shown : String → Option TypeId) :
    shownAfter lookup [] shown = shown := by
  funext name
  simp [shownAfter]

theorem shownAfter_cons (lookup : String → Option TypeId) (name : String) (rest : List String)
    (shown : String → Option TypeId) :
    shownAfter lookup (name :: rest) shown = shownAfter lookup rest
      (fun other => if other = name then lookup name else shown other) := by
  funext other
  unfold shownAfter
  by_cases hother : other = name
  · subst hother
    simp
  · simp [hother]

/-- All names of a list: the binding has what is registered for them, the members show it, and
    names without a provider are handled. -/
theorem Attaching.bindNames {names : List String} (binding : ImportsBinding)
    (h : Attaching mail wanted site object shown start work)
    (hsite : SiteIn start.program.locals site)
    (hobject : (start.program.store.object? object).isSome = true)
    (hregistered : ∀ name type, start.state.registry.lookup? name = some type →
      type.index < start.program.store.types.size)
    (hbound : ∀ name, start.state.registry.lookup? name = none →
      start.state.bound? site.file name = none)
    (hshown : ∀ name, shown name = start.state.bound? site.file name ∨
      shown name = start.state.registry.lookup? name)
    (hwanted : ∀ name ∈ names, start.state.registry.lookup? name = none →
      ∀ relative path origin, (start.table.poll mail).resolve name = .found relative →
        config.modulePath? site.file relative = some path → wanted ⟨path, none, origin⟩) :
    ∃ next, (Resolver.bindNames config mail site object binding names).runOn work =
        (.ok (names.foldl (fun binding name =>
          binding.bind name (start.state.registry.lookup? name)) binding), next) ∧
      Attaching mail wanted site object (shownAfter start.state.registry.lookup? names shown) start
        next ∧
      ∀ name, start.state.registry.lookup? name = none →
        name ∈ names ∨ Handled config mail name site.file work →
        Handled config mail name site.file next := by
  induction names generalizing binding shown work with
  | nil =>
    refine ⟨work, rfl, ?_, ?_⟩
    · rw [shownAfter_nil]
      exact h
    · intro name _ hor
      rcases hor with hmem | hhandled
      · cases hmem
      · exact hhandled
  | cons name rest ih =>
    have hpolled : work.table.poll mail = start.table.poll mail := h.others.polled
    obtain ⟨asked, hresolve, hasks, hhandled⟩ :=
      @run_resolveName config mail wanted site.file name work (by
        rw [h.registry, hpolled]
        exact hwanted name (by simp))
    rw [h.registry] at hresolve hhandled
    obtain ⟨store, hattach, hattaching⟩ := (h.asks hasks).attach hsite hobject
      (hregistered name) (hbound name) (hshown name)
    have hshown' : ∀ other,
        (if other = name then start.state.registry.lookup? name else shown other) =
            start.state.bound? site.file other ∨
          (if other = name then start.state.registry.lookup? name else shown other) =
            start.state.registry.lookup? other := by
      intro other
      by_cases hother : other = name
      · rw [hother, if_pos rfl]
        exact Or.inr rfl
      · rw [if_neg hother]
        exact hshown other
    obtain ⟨next, hrest, hlast, hkept⟩ := ih
      (binding.bind name (start.state.registry.lookup? name)) hattaching hshown'
      (fun other hother => hwanted other (by simp [hother]))
    refine ⟨next, ?_, ?_, ?_⟩
    · unfold Resolver.bindNames
      refine (runOn_bind hresolve).trans ?_
      refine (runOn_bind hattach).trans ?_
      exact hrest
    · rw [shownAfter_cons]
      exact hlast
    · intro other hnone hor
      have hstep := Work.Advances.withStore mail wanted asked store
      refine hkept other hnone ?_
      by_cases hother : other = name
      · subst hother
        exact Or.inr ((hhandled hnone).advances hstep)
      · rcases hor with hmem | hdone
        · rcases List.mem_cons.1 hmem with heq | hmem
          · exact absurd heq hother
          · exact Or.inl hmem
        · exact Or.inr (hdone.advances (hasks.advances.trans hstep))

/-- Nothing happens to names that are bound to what is registered for them and handled if nothing
    is. -/
theorem run_bindNames_again {names : List String} (binding : ImportsBinding)
    (hbound : ∀ name ∈ names, work.state.bound? site.file name =
      work.state.registry.lookup? name)
    (hhandled : ∀ name ∈ names, work.state.registry.lookup? name = none →
      Handled config mail name site.file work) :
    (Resolver.bindNames config mail site object binding names).runOn work =
      (.ok (names.foldl (fun binding name =>
        binding.bind name (work.state.registry.lookup? name)) binding), work) := by
  induction names generalizing binding with
  | nil => rfl
  | cons name rest ih =>
    unfold Resolver.bindNames
    refine (runOn_bind (run_resolveName_handled (hhandled name (by simp)))).trans ?_
    refine (runOn_bind (run_attach_same (hbound name (by simp)))).trans ?_
    refine ih _ ?_ ?_
    · intro other hother
      exact hbound other (by simp [hother])
    · intro other hother
      exact hhandled other (by simp [hother])

end Capabilities.Resolver
