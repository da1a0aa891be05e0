import Capabilities.Proofs.Resolver.Provenance
import Capabilities.Proofs.Session.Settling
import Capabilities.Script.Parse

/-!
# Following origins in a session

With a resolver on its own, files come into the queue from outside or in a look at the whole
program, and only the latter have an origin. Loading and updating files keep origins, and asking for
a file keeps them grounded, so every origin is there and is a reason for the file, and following
origins from any file ends at one that was added or updated from outside.
-/

namespace Capabilities.Session

open Host Resolver

/-- A file that is added from outside comes without an origin. -/
def Action.Plain : Action → Prop
  | .step (.addFile _ _ origin) => origin = none
  | _ => True

namespace Engine

/-! ### What comes from outside -/

section

variable {π : Type} [Plugin π]

/-- The path that an action adds or updates. A file that is not queued when it is added does not
    count. -/
def entersOf (engine : Engine π) : Action → List String
  | .step (.addFile path text origin) =>
    if (engine.program.addFile path text origin).1 then [path] else []
  | .step (.updateFile path _) => [path]
  | _ => []

/-- The paths that are added or updated in the course of some actions. -/
def enters [Script.Parser] (engine : Engine π) : List Action → List String
  | [] => []
  | first :: rest => engine.entersOf first ++ (engine.act first).enters rest

end

variable {config : Config} {given : List String} {engine : Engine Installed}
  {resolver : ResolverPlugin} {mail : Mail} {pending : PendingFile} {queue : List PendingFile}

/-! ### Parts of a session -/

/-- A session with a resolver on its own whose files have grounded origins. -/
structure Traced (config : Config) (given : List String) (engine : Engine Installed)
    (resolver : ResolverPlugin) : Prop where
  hosts : engine.Hosts resolver 0
  settings : resolver.config = config
  order : engine.InOrder
  grounded : Grounded config given resolver.table engine.program

theorem postInfer_grounded {program : Program}
    (h : Grounded resolver.config given resolver.table program) (mail : Mail) :
    Grounded resolver.config given (ResolverPlugin.postInfer mail resolver program).1.table
      (ResolverPlugin.postInfer mail resolver program).2 := by
  unfold ResolverPlugin.postInfer
  dsimp only
  split
  · have hwork : Grounded resolver.config given ((resolver.poll mail).work program).table
        ((resolver.poll mail).work program).program := h
    exact hwork.bindFiles mail program.fileNames
  · exact h

theorem Traced.loadNext [Script.Parser] (h : Traced config given engine resolver)
    (hqueue : engine.program.queue = pending :: queue) (read : String → Option String)
    (mail : Mail) :
    ∃ loaded, Traced config given (engine.loadNext read mail pending queue) loaded := by
  obtain ⟨loaded, hhosts, hlistens, hleft, hfiles⟩ :=
    h.hosts.loadNext_alone h.order read mail pending queue
  refine ⟨loaded, hhosts, hlistens.settings.trans h.settings, (h.order.next read mail hqueue).1, ?_⟩
  have hattempted := h.order.attempted read mail hqueue
  refine (h.grounded.later hlistens.table).step (List.Subset.refl given) ?_ ?_
  · intro path hpath
    refine hpath.pop hqueue (by rw [hleft]; exact List.Subset.refl queue) ?_ ?_
    · intro other hother
      rw [hattempted.loaded, hother, Bool.or_true]
    · intro hsome
      obtain ⟨text, htext⟩ := Option.isSome_iff_exists.1 hsome
      rw [hattempted.loaded, htext]
      simp
  · intro path origin hheld
    exact Or.inl (Program.held?_load h.order.tidy.toOrderly hqueue hleft
      (hfiles.imp And.right id) hheld)

theorem Traced.look (h : Traced config given engine resolver) (mail : Mail) :
    ∃ looked, Traced config given (engine.dispatch (Plugin.postInfer mail)) looked := by
  obtain ⟨hlooked, hprogram⟩ := h.hosts.dispatch_alone (acts_postInfer mail)
  obtain rfl := h.settings
  refine ⟨_, hlooked, (becomes_postInfer engine.program).1.config,
    endures_inOrder.look engine mail h.order, ?_⟩
  rw [hprogram]
  exact postInfer_grounded h.grounded mail

section

variable [Script.Parser]

theorem persists_traced (config : Config) (given : List String) :
    Persists fun engine => ∃ resolver, Traced config given engine resolver := by
  constructor
  · rintro engine read mail pending queue hqueue ⟨resolver, h⟩
    exact h.loadNext hqueue read mail
  · rintro engine mail ⟨resolver, h⟩
    exact h.look mail

theorem Traced.addFile (h : Traced config given engine resolver) (path : String)
    (text : Option String) :
    Traced config (given ++ engine.entersOf (.step (.addFile path text none)))
      (engine.step (.addFile path text none)) resolver := by
  refine ⟨h.hosts, h.settings, endures_inOrder.addFile engine path text none h.order, ?_⟩
  change Grounded config _ resolver.table (engine.program.addFile path text none).2
  cases hadded : (engine.program.addFile path text none).1 with
  | false =>
    simp only [entersOf, hadded, Bool.false_eq_true, if_false, List.append_nil]
    rw [Program.addFile_of_refused hadded]
    exact h.grounded
  | true =>
    simp only [entersOf, hadded, if_true]
    refine h.grounded.step (List.subset_append_left _ _) ?_ ?_
    · rw [Program.queue_of_added hadded]
      exact fun other hother => hother.queueing _
    · intro other origin hheld
      rw [Program.held?_addFile hadded] at hheld
      split at hheld
      · rename_i hsame
        cases hheld
        exact Or.inr ⟨rfl, by simp [hsame]⟩
      · exact Or.inl hheld

theorem Traced.updateFile (h : Traced config given engine resolver) (path text : String) :
    Traced config (given ++ [path]) (engine.step (.updateFile path text)) resolver := by
  refine ⟨h.hosts, h.settings, endures_inOrder.updateFile engine path text h.order, ?_⟩
  refine h.grounded.step (List.subset_append_left _ _)
    (fun other hother => hother.updateFile path text) ?_
  intro other origin hheld
  have hafter : (engine.program.updateFile path text).held? other = some origin := hheld
  rw [Program.held?_updateFile] at hafter
  split at hafter
  · rename_i hsame
    subst hsame
    cases hget : engine.program.files.get? other with
    | some loaded =>
      left
      rw [Program.held?_of_get? hget, ← hafter, hget]
      rfl
    | none =>
      rw [hget] at hafter
      cases hafter
      exact Or.inr ⟨rfl, by simp⟩
  · exact Or.inl hafter

theorem Traced.act (h : Traced config given engine resolver) {action : Action}
    (hplain : action.Plain) :
    ∃ later, Traced config (given ++ engine.entersOf action) (engine.act action) later := by
  have hpersists := persists_traced config given
  cases action with
  | step step =>
    cases step with
    | addFile path text origin =>
      obtain rfl : origin = none := hplain
      exact ⟨resolver, h.addFile path text⟩
    | updateFile path text => exact ⟨resolver, h.updateFile path text⟩
    | analyze read mail =>
      simp only [entersOf, List.append_nil]
      exact hpersists.analyze engine read mail ⟨resolver, h⟩
  | load read mail =>
    simp only [entersOf, List.append_nil]
    exact hpersists.act_load engine read mail ⟨resolver, h⟩
  | look mail =>
    simp only [entersOf, List.append_nil]
    exact hpersists.look engine mail ⟨resolver, h⟩

theorem Traced.perform (h : Traced config given engine resolver) {actions : List Action}
    (hplain : ∀ action ∈ actions, action.Plain) :
    ∃ later, Traced config (given ++ engine.enters actions) (engine.perform actions) later := by
  induction actions generalizing engine resolver given with
  | nil =>
    refine ⟨resolver, ?_⟩
    simp only [enters, List.append_nil]
    exact h
  | cons first rest ih =>
    obtain ⟨next, hnext⟩ := h.act (hplain first List.mem_cons_self)
    obtain ⟨later, hlater⟩ := ih hnext fun action haction =>
      hplain action (List.mem_cons_of_mem _ haction)
    refine ⟨later, ?_⟩
    rw [enters, ← List.append_assoc]
    exact hlater

omit [Script.Parser] in
/-- What a look puts into the queue is scheduled when the pass comes to its origin. -/
theorem Traced.schedules (h : Traced config given engine resolver)
    (hqueued : pending ∈ (engine.dispatch (Plugin.postInfer mail)).program.queue)
    (hadded : pending ∉ engine.program.queue) :
    ∃ front file back, engine.program.fileNames = front ++ file :: back ∧
      Schedules config mail (bindFiles config mail front (resolver.work engine.program)) file
        pending := by
  obtain ⟨-, hprogram⟩ := h.hosts.dispatch_alone (acts_postInfer mail)
  rw [hprogram] at hqueued
  unfold ResolverPlugin.postInfer at hqueued
  dsimp only at hqueued
  split at hqueued
  · obtain rfl := h.settings
    have hbound : pending ∈ (bindFiles resolver.config mail engine.program.fileNames
        (resolver.work engine.program)).program.queue := hqueued
    exact schedules_of_bindFiles hbound hadded
  · exact absurd hqueued hadded

omit [Script.Parser] in
theorem Starts.traced (h : engine.Starts config 0)
    (hwaits : ∀ resolver, engine.resolver? = some resolver → resolver.table.Waits) :
    ∃ resolver, Traced config [] engine resolver := by
  have horder := h.inOrder
  obtain ⟨resolver, hhosts, hfresh, hprogram⟩ := h
  refine ⟨resolver, hhosts, hfresh.settings, horder, ?_⟩
  rw [hprogram]
  exact .initial (hwaits resolver hhosts.resolver?)

/-! ### Whole sessions -/

/-- At every moment of a session in which no file is added from outside with an origin: the origin
    of a file is loaded or queued, and the path table names the file for it; no file is reached from
    itself; and every loaded or queued file is reached from one that has no origin and was added or
    updated from outside. When a look at the whole program puts a file into the queue, the pass has
    come to the origin of the file, which is loaded, declares a capability that nobody has
    registered, and the path table names the file for it. -/
theorem origins_grounded (hstart : engine.Starts config 0)
    (hwaits : ∀ resolver, engine.resolver? = some resolver → resolver.table.Waits)
    {actions : List Action} (hplain : ∀ action ∈ actions, action.Plain) :
    let program := (engine.perform actions).program
    ∃ resolver, (engine.perform actions).resolver? = some resolver ∧
      (∀ asker path, program.OriginOf asker path →
        (program.isLoaded asker = true ∨ program.isQueued asker = true) ∧
          Names config resolver.table asker path) ∧
      (∀ path, ¬Relation.TransGen program.OriginOf path path) ∧
      (∀ path, program.isLoaded path = true ∨ program.isQueued path = true →
        ∃ first ∈ engine.enters actions, Relation.ReflTransGen program.OriginOf first path ∧
          program.origin? first = none) ∧
      ∀ mail pending, pending ∈ ((engine.perform actions).act (.look mail)).program.queue →
        pending ∉ program.queue →
        ∃ front file back, program.fileNames = front ++ file :: back ∧
          Schedules config mail (bindFiles config mail front (resolver.work program)) file
            pending := by
  intro program
  obtain ⟨first, hfirst⟩ := hstart.traced hwaits
  obtain ⟨resolver, htraced⟩ := hfirst.perform hplain
  have hgrounded : Grounded config (engine.enters actions) resolver.table program :=
    htraced.grounded
  refine ⟨resolver, htraced.hosts.resolver?, ?_, ?_, ?_, ?_⟩
  · intro asker path hasker
    obtain ⟨hpresent, hnames⟩ := hgrounded.vouched path _ (Program.originOf_iff.1 hasker)
    refine ⟨?_, hnames⟩
    rw [← Bool.or_eq_true, ← Program.isSome_held?]
    exact Program.isSome_held?_of_present hpresent
  · exact fun path hcycle => hgrounded.founded.transGen.irrefl.irrefl path hcycle
  · exact fun path hpath => hgrounded.exists_first hpath
  · exact fun mail pending hqueued hadded => htraced.schedules hqueued hadded

end

def chained : Engine Installed :=
  .new [.resolver ⟨.default, .initial,
    .fixed ⟨[(.of "fs", "plugins/b/index"), (.of "log", "plugins/c/index")]⟩, none⟩]

theorem starts_chained : chained.Starts .default 0 := by
  refine ⟨_, ⟨[], [], rfl, rfl⟩, ⟨rfl, rfl, ?_⟩, rfl⟩
  intro reply hreply
  cases hreply

/-- A disk with the provider of the one, which is a consumer of the other. -/
def chainedDisk (path : String) : Option String :=
  if path = "/plugins/b/index.js" then
    some "main.consumes = [\"log\"]; function main(options, imports, register) \x7b\x7d"
  else none

/-- A consumer of the first is analyzed, and then its provider is loaded. -/
def chainedActions : List Action :=
  [.step (.addFile "/plugins/a/index.js" (some orphanText) none), .step (.analyze chainedDisk []),
    .load chainedDisk []]

theorem performed_chained :
    (chained.perform chainedActions).program.origin? "/plugins/b/index.js" =
      some "/plugins/a/index.js" ∧
    (chained.perform chainedActions).program.queue = [] ∧
    ((chained.perform chainedActions).act (.look [])).program.queue =
      [⟨"/plugins/c/index.js", none, some "/plugins/b/index.js"⟩] ∧
    chained.enters chainedActions = ["/plugins/a/index.js"] := by
  decide +kernel

/-- The provider comes from the consumer, and when the look schedules the file for what the provider
    lacks, the pass has come to the provider. -/
theorem origins_grounded_chained :
    let program := (chained.perform chainedActions).program
    Relation.ReflTransGen program.OriginOf "/plugins/a/index.js" "/plugins/b/index.js" ∧
    ∃ resolver, (chained.perform chainedActions).resolver? = some resolver ∧
      Names .default resolver.table "/plugins/a/index.js" "/plugins/b/index.js" ∧
      ∃ front back, program.fileNames = front ++ "/plugins/b/index.js" :: back ∧
        Schedules .default [] (bindFiles .default [] front (resolver.work program))
          "/plugins/b/index.js" ⟨"/plugins/c/index.js", none, some "/plugins/b/index.js"⟩ := by
  intro program
  obtain ⟨horigin, hempty, hqueue, henters⟩ := performed_chained
  have hwaits : ∀ resolver, chained.resolver? = some resolver → resolver.table.Waits := by
    rintro _ ⟨⟩
    exact PathTable.waits_fixed _
  have hplain : ∀ action ∈ chainedActions, action.Plain := by
    simp [chainedActions, Action.Plain]
  obtain ⟨resolver, hresolver, hnames, -, hfirst, hschedules⟩ :=
    origins_grounded starts_chained hwaits hplain
  have hasker : program.OriginOf "/plugins/a/index.js" "/plugins/b/index.js" := horigin
  have hheld : program.isLoaded "/plugins/b/index.js" = true ∨
      program.isQueued "/plugins/b/index.js" = true := by
    rw [← Bool.or_eq_true, ← Program.isSome_held?, Program.originOf_iff.1 hasker]
    rfl
  obtain ⟨first, hmem, hreaches, -⟩ := hfirst "/plugins/b/index.js" hheld
  rw [henters, List.mem_singleton] at hmem
  subst hmem
  obtain ⟨front, file, back, hfiles, hscheduled⟩ := hschedules []
    ⟨"/plugins/c/index.js", none, some "/plugins/b/index.js"⟩ (by rw [hqueue]; simp)
    (by rw [hempty]; simp)
  obtain rfl := Option.some.inj hscheduled.sought.1
  exact ⟨hreaches, resolver, hresolver, (hnames _ _ hasker).2, front, back, hfiles, hscheduled⟩

end Engine

end Capabilities.Session
