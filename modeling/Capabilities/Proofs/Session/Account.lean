import Capabilities.Proofs.Resolver.Account
import Capabilities.Proofs.Session.Actions
import Capabilities.Script.Parse

/-!
# No capability is lost silently

A path that an engine knows stays known: it is loaded, queued or has failed, and it only ever
moves between the three. So what accounts for a missing capability once accounts for it from then
on, whatever is added, updated, loaded or bound, and whether the resolver is enabled or not.
-/

namespace Capabilities.Session

open Host Script Resolver Inference

/-! ### Paths stay known -/

namespace Program

variable {program : Program} {path other : String}

theorem Knows.queueing (h : program.Knows path) (more : List PendingFile) :
    (program.queueing more).Knows path := by
  rcases h with hloaded | hqueued | hfailed
  · exact Or.inl hloaded
  · right
    left
    simp only [isQueued, Program.queueing, List.any_append] at hqueued ⊢
    rw [hqueued]
    rfl
  · exact Or.inr (Or.inr hfailed)

theorem Knows.updateFile (h : program.Knows other) (path text : String) :
    (program.updateFile path text).Knows other := by
  by_cases hsame : other = path
  · right
    left
    rw [isQueued_updateFile, beq_iff_eq.2 hsame, Bool.true_or]
  · rcases h with hloaded | hqueued | hfailed
    · left
      rw [isLoaded_updateFile, hloaded, bne_iff_ne.2 hsame]
      rfl
    · right
      left
      rw [isQueued_updateFile, hqueued, Bool.or_true]
    · right
      right
      rw [hasFailed_updateFile, hfailed, bne_iff_ne.2 hsame]
      rfl

/-- Nothing but the first file leaves the queue. -/
theorem Knows.pop {pending : PendingFile} {queue : List PendingFile} (h : program.Knows other)
    (hqueue : program.queue = pending :: queue) :
    other = pending.path ∨ ({ program with queue := queue } : Program).Knows other := by
  rcases h with hloaded | hqueued | hfailed
  · exact Or.inr (Or.inl hloaded)
  · unfold isQueued at hqueued
    rw [hqueue, List.any_cons, Bool.or_eq_true, beq_iff_eq] at hqueued
    rcases hqueued with hfirst | hrest
    · exact Or.inl hfirst.symm
    · exact Or.inr (Or.inr (Or.inl hrest))
  · exact Or.inr (Or.inr (Or.inr hfailed))

theorem Knows.put (h : other = path ∨ program.Knows other) (loaded : LoadedFile) :
    ({ program with files := program.files.put path loaded } : Program).Knows other := by
  by_cases hsame : other = path
  · rw [hsame]
    exact Or.inl (isLoaded_put program path loaded)
  · rcases h.resolve_left hsame with hloaded | hrest
    · left
      rw [isLoaded_put_eq, hloaded, Bool.or_true]
    · exact Or.inr hrest

/-- It is noted of a file whether it has failed; otherwise it is loaded. -/
theorem Knows.note (h : other = path ∨ program.Knows other) {succeeded : Bool}
    (hloaded : succeeded = true → program.isLoaded path = true) :
    ({ program with failed := if succeeded then program.failed.filter (· != path)
        else program.failed.filter (· != path) ++ [path] } : Program).Knows other := by
  by_cases hsame : other = path
  · rw [hsame]
    cases succeeded with
    | true => exact Or.inl (hloaded rfl)
    | false => exact Or.inr (Or.inr (by simp [hasFailed]))
  · rcases h.resolve_left hsame with hloaded | hqueued | hfailed
    · exact Or.inl hloaded
    · exact Or.inr (Or.inl hqueued)
    · right
      right
      simp only [hasFailed, List.contains_eq_mem, decide_eq_true_eq] at hfailed ⊢
      have hkept : other ∈ program.failed.filter (· != path) :=
        List.mem_filter.2 ⟨hfailed, bne_iff_ne.2 hsame⟩
      split
      · exact hkept
      · exact List.mem_append_left _ hkept

end Program

namespace Engine

variable {config : Config} {others : Nat} {engine : Engine Installed} {resolver : ResolverPlugin}
  {hook : Installed → Program → Installed × Program}
  {action : ResolverPlugin → Program → ResolverPlugin × Program}

/-! ### A resolver that waits for the path table -/

theorem waits_new (h : ResolverPlugin.new config = .ok resolver) : resolver.table.Waits := by
  unfold ResolverPlugin.new at h
  cases hvalid : config.validate with
  | error error =>
    rw [hvalid] at h
    cases h
  | ok _ =>
    rw [hvalid] at h
    cases h
    exact PathTable.waits_notRequested

theorem table_connect (resolver : ResolverPlugin) (exchange : Exchange) :
    (resolver.connect exchange).1.table = resolver.table ∨
      ∃ ticket, (resolver.connect exchange).1.table = .requested (.awaiting ticket) := by
  unfold ResolverPlugin.connect Exchange.requestPaths Exchange.requestPlugins
  dsimp only
  cases (exchange.request .paths).1 with
  | error error =>
    left
    cases ((exchange.request .paths).2.request .plugins).1 <;> rfl
  | ok ticket =>
    right
    refine ⟨ticket, ?_⟩
    cases ((exchange.request .paths).2.request .plugins).1 <;> rfl

theorem waits_connect (h : resolver.table.Waits) (exchange : Exchange) :
    (resolver.connect exchange).1.table.Waits := by
  rcases table_connect resolver exchange with hsame | ⟨ticket, hasked⟩
  · rw [hsame]
    exact h
  · rw [hasked]
    exact PathTable.waits_awaiting ticket

/-! ### Hooks -/

/-- All that a resolver misses in a program is accounted for. -/
structure Accounts (config : Config) (resolver : ResolverPlugin) (program : Program) : Prop where
  settings : resolver.config = config
  accounted : Accounted config (resolver.work program)

/-- A hook of the resolver leaves all accounted for and keeps what is on record. -/
def Accounting (config : Config)
    (action : ResolverPlugin → Program → ResolverPlugin × Program) : Prop :=
  ∀ resolver program, Accounts config resolver program →
    Accounts config (action resolver program).1 (action resolver program).2 ∧
      (resolver.work program).Extends ((action resolver program).1.work (action resolver program).2)

theorem accounting_beforeLoad (mail : Mail) (path : String) :
    Accounting config (ResolverPlugin.beforeLoad mail path) := by
  intro resolver program h
  unfold ResolverPlugin.beforeLoad
  dsimp only
  split
  · have hextends : (resolver.work program).Extends
        ⟨program, resolver.state.resetFile path, resolver.table⟩ :=
      ⟨⟨fun _ => id, fun _ => id, fun _ => id, fun _ => id⟩, rfl, rfl⟩
    refine ⟨⟨h.settings, ?_⟩, hextends⟩
    refine h.accounted.recalls hextends.toRecalls h.accounted.table h.accounted.reported ?_
    intro file binding hbinding
    have herase : (resolver.state.bindings.erase path).get? file = some binding := hbinding
    rw [Keyed.get?_erase] at herase
    split at herase
    · cases herase
    · exact herase
  · exact ⟨⟨h.settings, h.accounted⟩, .refl _⟩

theorem accounting_afterLoad (mail : Mail) (path : String) :
    Accounting config (ResolverPlugin.afterLoad mail path) := by
  intro resolver program h
  unfold ResolverPlugin.afterLoad
  dsimp only
  split
  · have hleads := (registers_upholds config path).synthesize resolver.config _ h.accounted
    have hextends : ∀ work : Work, work.Extends
        { work with state := work.state.setStage path .parsed } :=
      fun work => ⟨⟨fun _ => id, fun _ => id, fun _ => id, fun _ => id⟩, rfl, rfl⟩
    refine ⟨⟨h.settings, ?_⟩, hleads.recalls.trans (hextends _)⟩
    exact ⟨hleads.accounted.table, hleads.accounted.reported, hleads.accounted.explained⟩
  · exact ⟨⟨h.settings, h.accounted⟩, .refl _⟩

theorem accounting_postInfer (mail : Mail) :
    Accounting config (ResolverPlugin.postInfer mail) := by
  intro resolver program h
  unfold ResolverPlugin.postInfer
  dsimp only
  split
  · have hsame : (resolver.poll mail).config = config := h.settings
    rw [hsame]
    obtain ⟨hbound, hextends⟩ := h.accounted.bindProgram mail
    exact ⟨⟨h.settings, hbound⟩, hextends⟩
  · exact ⟨⟨h.settings, h.accounted⟩, .refl _⟩

theorem Accounts.withProgram {program next : Program} (h : Accounts config resolver program)
    (hknown : ∀ path, program.Knows path → next.Knows path) : Accounts config resolver next := by
  have hrecalls : (resolver.work program).Recalls (resolver.work next) :=
    ⟨fun _ => id, fun _ => id, fun _ => id, hknown⟩
  exact ⟨h.settings, h.accounted.recalls hrecalls h.accounted.table h.accounted.reported
    fun _ _ => id⟩

/-! ### Parts of a session -/

/-- The engine has one resolver, and all that it misses is accounted for. -/
def Audited (config : Config) (others : Nat) (engine : Engine Installed) : Prop :=
  ∃ resolver, engine.Hosts resolver others ∧ Accounts config resolver engine.program

theorem Audited.withProgram (h : engine.Audited config others) {program : Program}
    (hknown : ∀ path, engine.program.Knows path → program.Knows path) :
    ({ engine with program := program } : Engine Installed).Audited config others := by
  obtain ⟨resolver, hhosts, haccounts⟩ := h
  exact ⟨resolver, hhosts, haccounts.withProgram hknown⟩

theorem Audited.dispatch (h : engine.Audited config others) (hacts : Acts hook action)
    (haccounting : Accounting config action) :
    (engine.dispatch hook).Audited config others ∧
      (engine.dispatch hook).program.files = engine.program.files := by
  obtain ⟨resolver, hhosts, haccounts⟩ := h
  obtain ⟨first, last, _, _, _, hhosts', hprogram⟩ := hhosts.dispatch hacts
  have hfirst : Accounts config resolver (engine.program.queueing first) :=
    haccounts.withProgram fun _ hknown => hknown.queueing first
  obtain ⟨hnext, hextends⟩ := haccounting resolver _ hfirst
  refine ⟨⟨_, hhosts', ?_⟩, ?_⟩
  · rw [hprogram]
    exact hnext.withProgram fun _ hknown => hknown.queueing last
  · rw [hprogram]
    exact hextends.files

section

variable [Parser]

theorem Audited.loadNext (h : engine.Audited config others) {pending : PendingFile}
    {queue : List PendingFile} (hqueue : engine.program.queue = pending :: queue)
    (read : String → Option String) (mail : Mail) :
    (engine.loadNext read mail pending queue).Audited config others := by
  let popped : Engine Installed := { engine with program := { engine.program with queue := queue } }
  cases htext : pending.text.or (read pending.path) with
  | none =>
    have hload : popped.load read mail pending = (false, popped) := load_unreadable htext
    rw [loadNext_eq hload]
    refine h.withProgram fun path hknown => ?_
    exact Program.Knows.note (hknown.pop hqueue) (by rintro ⟨⟩)
  | some text =>
    have hopened : (popped.opening pending text).Audited config others :=
      h.withProgram fun path hknown => Program.Knows.put (hknown.pop hqueue) _
    obtain ⟨hannounced, hfiles⟩ := hopened.dispatch (acts_beforeLoad mail pending.path)
      (accounting_beforeLoad mail pending.path)
    have hget : ((popped.opening pending text).dispatch
        (Plugin.beforeLoad mail pending.path)).program.files.get? pending.path = some
          ⟨.ofText pending.path text, .empty, pending.origin⟩ := by
      rw [hfiles]
      exact Keyed.get?_put_self _ _ _
    generalize hannouncing : (popped.opening pending text).dispatch
      (Plugin.beforeLoad mail pending.path) = announced at hannounced hget
    cases hinfer : inferFile pending.path (parse text) announced.program.store with
    | mk outcome store =>
      cases outcome with
      | error error =>
        rw [loadNext_eq (load_refused htext hannouncing hinfer)]
        exact hannounced.withProgram fun path hknown =>
          Program.Knows.note (Or.inr hknown) (by rintro ⟨⟩)
      | ok inference =>
        have hinferred : (announced.inferring store pending.path
            ⟨.ofText pending.path text, .empty, pending.origin⟩ inference).Audited config others :=
          hannounced.withProgram fun path hknown => Program.Knows.put (Or.inr hknown) _
        obtain ⟨hloaded, hfiles'⟩ := hinferred.dispatch (acts_afterLoad mail pending.path)
          (accounting_afterLoad mail pending.path)
        rw [loadNext_eq (load_inferred htext hannouncing hget hinfer)]
        refine hloaded.withProgram fun path hknown => ?_
        refine Program.Knows.note (Or.inr hknown) fun _ => ?_
        unfold Program.isLoaded
        rw [hfiles']
        exact Program.isLoaded_put announced.program pending.path _

/-- Every part of a session leaves all accounted for. -/
theorem endures_audited (config : Config) (others : Nat) :
    Endures (Audited config others) := by
  constructor
  · intro engine path text origin h
    obtain ⟨more, hmore, _⟩ := addFile_eq_queueing engine.program path text origin
    refine h.withProgram fun known hknown => ?_
    rw [hmore]
    exact hknown.queueing more
  · intro engine path text h
    exact h.withProgram fun known hknown => hknown.updateFile path text
  · intro engine read mail pending queue hqueue h
    exact h.loadNext hqueue read mail
  · intro engine mail h
    exact (h.dispatch (acts_postInfer mail) (accounting_postInfer mail)).1

variable {actions : List Action} {file name : String} {binding : ImportsBinding}

/-- At every moment of a session it is on record why a name of a stored binding has no type. -/
theorem explained_of_unresolved (hstart : engine.Starts config others)
    (hwaits : ∀ resolver, engine.resolver? = some resolver → resolver.table.Waits)
    (hresolver : (engine.perform actions).resolver? = some resolver)
    (hbinding : resolver.state.binding? file = some binding)
    (hname : name ∈ binding.unresolved) :
    Explained config (resolver.work (engine.perform actions).program) file name := by
  obtain ⟨first, hhosts, hfresh, hprogram⟩ := hstart
  have haccounted : Accounted config (first.work engine.program) := by
    unfold ResolverPlugin.work
    rw [hfresh.state]
    exact .start (hwaits first hhosts.resolver?) config engine.program
  have haudited : engine.Audited config others :=
    ⟨first, hhosts, hfresh.settings, haccounted⟩
  obtain ⟨last, hlast, haccounts⟩ := (endures_audited config others).perform actions haudited
  rw [hlast.resolver?] at hresolver
  cases hresolver
  exact haccounts.accounted.explained file binding name hbinding hname

end

def mapped : Engine Installed :=
  .new [.resolver ⟨.default, .initial, .fixed ⟨[(.of "fs", "plugins/b/index")]⟩, none⟩]

theorem starts_mapped : mapped.Starts .default 0 := by
  refine ⟨_, ⟨[], [], rfl, rfl⟩, ⟨rfl, rfl, ?_⟩, rfl⟩
  intro reply hreply
  cases hreply

/-- A consumer of that capability and of one that nobody knows. -/
def orphanText : String :=
  "main.consumes = [\"fs\", \"net\"]; function main(options, imports, register) \x7b\x7d"

/-- The file of the one capability is asked for and cannot be read. -/
def orphanActions : List Action :=
  [.step (.addFile "/m/plugins/a/index.js" (some orphanText) none),
    .step (.analyze (fun _ => none) []), .load (fun _ => none) []]

theorem performed_orphan :
    (((mapped.perform orphanActions).resolver?.bind fun resolver =>
        resolver.state.binding? "/m/plugins/a/index.js").map ImportsBinding.unresolved =
      some ["fs", "net"]) ∧
    (mapped.perform orphanActions).resolver?.map (fun resolver =>
      ["fs", "net"].map resolver.state.warnedAbout) = some [false, true] := by
  decide +kernel

theorem explained_orphan : ∃ resolver binding,
    (mapped.perform orphanActions).resolver? = some resolver ∧
    resolver.state.binding? "/m/plugins/a/index.js" = some binding ∧
    binding.unresolved = ["fs", "net"] ∧
    ["fs", "net"].map resolver.state.warnedAbout = [false, true] ∧
    ∀ name ∈ binding.unresolved, Explained .default
      (resolver.work (mapped.perform orphanActions).program) "/m/plugins/a/index.js" name := by
  obtain ⟨hunresolved, hwarned⟩ := performed_orphan
  obtain ⟨binding, hbinding, hnames⟩ := Option.map_eq_some_iff.1 hunresolved
  obtain ⟨resolver, hresolver, hstored⟩ := Option.bind_eq_some_iff.1 hbinding
  rw [hresolver] at hwarned
  refine ⟨resolver, binding, hresolver, hstored, hnames, Option.some.inj hwarned, ?_⟩
  intro name hname
  refine explained_of_unresolved starts_mapped ?_ hresolver hstored hname
  intro first hfirst
  cases hfirst
  exact PathTable.waits_fixed _

end Engine

end Capabilities.Session
