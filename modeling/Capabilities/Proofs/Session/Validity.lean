import Capabilities.Proofs.Resolver.Validity
import Capabilities.Proofs.Session.Analysis
import Capabilities.Proofs.Session.Demand
import Capabilities.Script.Parse

/-!
# Refusals of the store do not occur

The store may refuse an operation on an id that it does not have, and a refusal would be swallowed:
a hook of the resolver goes on without what it was to do, and a file that cannot be inferred stays
loaded and is reported as failed. `Engine.refusals` are the refusals that a part of an analysis
meets. In a session with a resolver on its own there are none, because every part of every analysis
finds valid work and leaves valid work (`Valid.move`). So a file fails only if it cannot be read.
-/

namespace Capabilities.Resolver

open Host Session Capabilities.Types

/-! ### Refusals -/

def refusal {α : Type} : Except StoreError α → List StoreError
  | .ok _ => []
  | .error error => [error]

/-- The refusals that binding one file after the other meets. -/
def bindRefusals (config : Config) (mail : Mail) : List String → Work → List StoreError
  | [], _ => []
  | file :: rest, work =>
    let (outcome, next) := (bindFile config mail file).runOn (work.withOrigin (some file))
    refusal outcome ++ bindRefusals config mail rest next

/-- The refusals that a hook of the resolver meets. -/
def ResolverPlugin.refusals (mail : Mail) (event : Event) (resolver : ResolverPlugin)
    (program : Program) : List StoreError :=
  let resolver := resolver.poll mail
  if resolver.isEnabled then
    match event with
    | .before _ => []
    | .after file => refusal ((synthesize resolver.config file).runOn (resolver.work program)).1
    | .post => bindRefusals resolver.config mail program.fileNames (resolver.work program)
  else []

variable {config : Config} {work : Work} {resolver : ResolverPlugin} {program : Program}

/-- A pass over files meets no refusal. -/
theorem Work.Valid.bindFiles (h : work.Valid) (config : Config) (mail : Mail)
    (files : List String) :
    bindRefusals config mail files work = [] ∧ (bindFiles config mail files work).Valid := by
  induction files generalizing work with
  | nil => exact ⟨rfl, h⟩
  | cons file rest ih =>
    have hsucceeds : Succeeds work.program.store (bindFile config mail file) fun _ _ => True :=
      succeeds_bindFile file
    obtain ⟨_, next, hrun, hnext, -, -⟩ :=
      hsucceeds (work.withOrigin (some file)) (h.withOrigin (some file)) (.refl _)
    rw [bindFiles_cons rest hrun]
    unfold bindRefusals
    rw [hrun]
    exact ih hnext

/-- No hook of the resolver meets a refusal, whether or not the resolver is enabled. -/
theorem Work.Valid.hook (h : (resolver.work program).Valid) (mail : Mail) (event : Event) :
    resolver.refusals mail event program = [] ∧
      ((event.hook mail resolver program).1.work (event.hook mail resolver program).2).Valid := by
  have hpolled : ((resolver.poll mail).work program).Valid := h
  unfold ResolverPlugin.refusals
  dsimp only
  cases event with
  | before file =>
    change _ ∧ ((ResolverPlugin.beforeLoad mail file resolver program).1.work
      (ResolverPlugin.beforeLoad mail file resolver program).2).Valid
    unfold ResolverPlugin.beforeLoad
    dsimp only
    split
    · exact ⟨rfl, hpolled.withState (hpolled.state.resetFile file)⟩
    · exact ⟨rfl, hpolled⟩
  | after file =>
    change _ ∧ ((ResolverPlugin.afterLoad mail file resolver program).1.work
      (ResolverPlugin.afterLoad mail file resolver program).2).Valid
    unfold ResolverPlugin.afterLoad
    dsimp only
    split
    · obtain ⟨_, next, hrun, hnext, -, -⟩ :=
        succeeds_synthesize (resolver.poll mail).config file _ hpolled (.refl _)
      rw [hrun]
      exact ⟨rfl, hnext.program, hnext.state.of_same rfl rfl rfl⟩
    · exact ⟨rfl, hpolled⟩
  | post =>
    change _ ∧ ((ResolverPlugin.postInfer mail resolver program).1.work
      (ResolverPlugin.postInfer mail resolver program).2).Valid
    unfold ResolverPlugin.postInfer
    dsimp only
    split
    · obtain ⟨hnone, hbound⟩ :=
        hpolled.bindFiles (resolver.poll mail).config mail program.fileNames
      exact ⟨hnone, hbound.withOrigin none⟩
    · exact ⟨rfl, hpolled⟩

end Capabilities.Resolver

namespace Capabilities.Session

open Host Script Resolver Inference Capabilities.Types

/-- What is known about the loaded files was inferred from their texts. -/
def Program.Inferred [Parser] (program : Program) : Prop :=
  ∀ path loaded, program.files.get? path = some loaded →
    ∃ text base, loaded.source = .ofText path text ∧ base.HasPrimitives ∧
      (inferFile path (parse text) base).1 = .ok loaded.inference

def Action.disk? : Action → Option (String → Option String)
  | .step (.analyze read _) => some read
  | .load read _ => some read
  | _ => none

namespace Engine

/-- The refusals that a part of an analysis meets. -/
def refusals [Parser] (mail : Mail) (engine : Engine Installed) : Move → List StoreError
  | .call plugin event =>
    match engine.plugins[plugin]? with
    | some (.resolver resolver) => resolver.refusals mail event engine.program
    | _ => []
  | .infer path text => refusal (inferFile path (parse text) engine.program.store).1
  | _ => []

/-- The only plugin is a resolver, and its work is valid. -/
def Valid (engine : Engine Installed) : Prop :=
  ∃ resolver, engine.plugins = [.resolver resolver] ∧ (resolver.work engine.program).Valid

variable {engine : Engine Installed} {config : Config} {mail : Mail}

/-- Changes of the program that keep its store and its files. -/
theorem Valid.of_program (h : engine.Valid) {program : Program}
    (hprogram : engine.program.Valid → program.Valid)
    (hgrows : engine.program.store.Grows program.store) :
    ({ engine with program := program } : Engine Installed).Valid := by
  obtain ⟨resolver, hplugins, hvalid⟩ := h
  exact ⟨resolver, hplugins, hprogram hvalid.program, hvalid.state.mono hgrows⟩

/-! ### Parts of an analysis -/

section

variable [Parser]

theorem Valid.call (h : engine.Valid) (mail : Mail) (plugin : Nat) (event : Event) :
    engine.refusals mail (.call plugin event) = [] ∧ (engine.call mail plugin event).Valid := by
  have hvalid := h
  obtain ⟨resolver, hplugins, hwork⟩ := h
  cases plugin with
  | zero =>
    have hfound : engine.plugins[0]? = some (.resolver resolver) := by
      rw [hplugins]
      rfl
    obtain ⟨hnone, hnext⟩ := hwork.hook mail event
    unfold refusals Engine.call
    simp only [hfound, event.hook_resolver]
    refine ⟨hnone, (event.hook mail resolver engine.program).1, ?_, hnext⟩
    rw [hplugins]
    rfl
  | succ plugin =>
    have hfound : engine.plugins[plugin + 1]? = none := by
      rw [hplugins]
      rfl
    unfold refusals Engine.call
    simp only [hfound]
    exact ⟨trivial, hvalid⟩

theorem Valid.infer (h : engine.Valid) (mail : Mail) (path text : String) :
    engine.refusals mail (.infer path text) = [] ∧
      (engine.move mail (.infer path text)).Valid := by
  obtain ⟨resolver, hplugins, hwork⟩ := h
  obtain ⟨inference, store, hinfer, hnoted⟩ := hwork.program.infer path (parse text)
  have hinfer' : inferFile path (parse text) engine.program.store = (.ok inference, store) := hinfer
  constructor
  · change refusal (inferFile path (parse text) engine.program.store).1 = []
    rw [hinfer']
    rfl
  · cases hloaded : engine.program.files.get? path with
    | none =>
      have hmove : inferAt path text engine.program = engine.program.withStore store := by
        unfold inferAt
        rw [hinfer', hloaded]
        rfl
      obtain ⟨hgrows, hprogram⟩ := hnoted engine.program.files fun _ _ => Or.inl
      refine ⟨resolver, hplugins, ?_⟩
      change (resolver.work (inferAt path text engine.program)).Valid
      rw [hmove]
      exact ⟨hprogram, hwork.state.mono hgrows⟩
    | some loaded =>
      let files := engine.program.files.put path { loaded with inference := inference }
      have hmove : inferAt path text engine.program =
          { engine.program with store := store, files := files } := by
        unfold inferAt
        rw [hinfer', hloaded]
      have hput : ∀ other found, files.get? other = some found →
          engine.program.files.get? other = some found ∨
            other = path ∧ found.inference = inference := by
        intro other found hfound
        simp only [files, Keyed.get?_put] at hfound
        split at hfound
        · rename_i hother
          cases hfound
          exact Or.inr ⟨hother, rfl⟩
        · exact Or.inl hfound
      obtain ⟨hgrows, hprogram⟩ := hnoted files hput
      refine ⟨resolver, hplugins, ?_⟩
      change (resolver.work (inferAt path text engine.program)).Valid
      rw [hmove]
      exact ⟨hprogram, hwork.state.mono hgrows⟩

/-- No part of an analysis meets a refusal, and each leaves valid work. -/
theorem Valid.move (h : engine.Valid) (mail : Mail) (move : Move) :
    engine.refusals mail move = [] ∧ (engine.move mail move).Valid := by
  cases move with
  | take => exact ⟨rfl, h.of_program (fun hvalid => hvalid.of_same rfl rfl) (.refl _)⟩
  | enter pending text =>
    refine ⟨rfl, h.of_program (fun hvalid => hvalid.of_files rfl ?_) (.refl _)⟩
    intro other loaded hloaded
    change (engine.program.files.put pending.path _).get? other = some loaded at hloaded
    rw [Keyed.get?_put] at hloaded
    split at hloaded
    · cases hloaded
      exact Or.inl rfl
    · exact Or.inr hloaded
  | call plugin event => exact h.call mail plugin event
  | infer path text => exact h.infer mail path text
  | note path succeeded =>
    exact ⟨rfl, h.of_program (fun hvalid => hvalid.of_same rfl rfl) (.refl _)⟩

/-- However many parts there are, the work stays valid and nothing is refused. -/
theorem Valid.follow (h : engine.Valid) (mail : Mail) (moves : List Move) :
    (engine.follow mail moves).Valid ∧
      engine.Throughout mail (fun engine move => engine.Valid ∧ engine.refusals mail move = [])
        moves := by
  induction moves generalizing engine with
  | nil => exact ⟨h, trivial⟩
  | cons move rest ih =>
    obtain ⟨hnone, hnext⟩ := h.move mail move
    obtain ⟨hfollow, hthroughout⟩ := ih hnext
    exact ⟨hfollow, ⟨h, hnone⟩, hthroughout⟩

/-! ### Sessions -/

/-- Every part of a session keeps the work valid, and infers what it loads. -/
theorem endures_valid :
    Endures fun engine : Engine Installed =>
      engine.InOrder ∧ engine.Valid ∧ engine.program.Inferred := by
  have horder := @endures_inOrder Installed _ _
  constructor
  · rintro engine path text origin ⟨h, hvalid, hinferred⟩
    obtain ⟨more, hmore, -⟩ := addFile_eq_queueing engine.program path text origin
    refine ⟨horder.addFile engine path text origin h, ?_, ?_⟩
    · refine hvalid.of_program (fun hprogram => ?_) ?_
      · rw [hmore]
        exact hprogram.of_same rfl rfl
      · rw [hmore]
        exact .refl _
    · change (engine.program.addFile path text origin).2.Inferred
      rw [hmore]
      exact hinferred
  · rintro engine path text ⟨h, hvalid, hinferred⟩
    refine ⟨horder.updateFile engine path text h,
      hvalid.of_program (fun hprogram => hprogram.updateFile path text) (.refl _), ?_⟩
    intro other loaded hloaded
    change (engine.program.files.erase path).get? other = some loaded at hloaded
    rw [Keyed.get?_erase] at hloaded
    split at hloaded
    · cases hloaded
    · exact hinferred other loaded hloaded
  · rintro engine read mail pending queue hqueue ⟨h, hvalid, hinferred⟩
    refine ⟨horder.load engine read mail pending queue hqueue h, ?_, ?_⟩
    · rw [(h.loadNext read mail hqueue).1]
      exact (hvalid.follow mail _).1
    · rcases loadNext_cases h.primitives read mail pending queue with
        ⟨-, hnext⟩ | ⟨text, inference, store, -, hinfer, -, hnext⟩
      · rw [hnext]
        exact hinferred
      · have hbefore := allows_beforeLoad mail pending.path
          ((engine.popping queue).opening pending text)
        rw [hnext]
        generalize ((engine.popping queue).opening pending text).dispatch
          (Plugin.beforeLoad mail pending.path) = announced at hbefore hinfer
        have hafter := allows_afterLoad mail pending.path (announced.inferring store pending.path
          ⟨.ofText pending.path text, .empty, pending.origin⟩ inference)
        intro other loaded hloaded
        change Keyed.get? (Engine.dispatch _ _).program.files other = some loaded at hloaded
        rw [hafter.files] at hloaded
        change (announced.program.files.put pending.path _).get? other = some loaded at hloaded
        rw [Keyed.get?_put] at hloaded
        split at hloaded
        · rename_i hother
          cases hloaded
          rw [hother]
          refine ⟨text, announced.program.store, rfl, hbefore.primitives h.primitives, ?_⟩
          rw [hinfer]
        · rename_i hother
          rw [hbefore.files] at hloaded
          change (engine.program.files.put pending.path _).get? other = some loaded at hloaded
          rw [Keyed.get?_put_of_ne _ _ hother] at hloaded
          exact hinferred other loaded hloaded
  · rintro engine mail ⟨h, hvalid, hinferred⟩
    refine ⟨horder.look engine mail h, ?_, ?_⟩
    · have hlook : engine.follow mail (calls engine.plugins.length .post) =
          engine.dispatch (Plugin.postInfer mail) := follow_calls mail .post engine
      rw [← hlook]
      exact (hvalid.follow mail _).1
    · unfold Program.Inferred
      rw [(allows_postInfer mail engine).files]
      exact hinferred

/-! ### Files that fail -/

/-- A file that has no text and could not be read from disk. -/
def Unread (read : String → Option String) (path : String) (attempt : Attempt) : Prop :=
  attempt.file.path = path ∧ attempt.file.text = none ∧ read path = none

/-- An analysis reports as failed only what could not be read. -/
theorem Analyzed.unread {read : String → Option String} {attempts : List Attempt}
    {report : AnalysisReport} {analyzed : Engine Installed} {path : String}
    (h : Analyzed read mail engine attempts report analyzed) (hpath : path ∈ report.failed) :
    ∃ attempt ∈ attempts, Unread read path attempt := by
  rw [h.failed] at hpath
  obtain ⟨attempt, hattempt, rfl⟩ := List.mem_map.1 hpath
  obtain ⟨hmem, hfailed⟩ := List.mem_filter.1 hattempt
  have hnone : attempt.text = none := by
    simpa [Attempt.succeeded] using hfailed
  rw [h.texts attempt hmem, Option.or_eq_none_iff] at hnone
  exact ⟨attempt, hmem, rfl, hnone⟩

/-- A path that is noted as failed when a file was loaded was noted before or could not be read. -/
theorem InOrder.failed_loadNext {read : String → Option String} {pending : PendingFile}
    {queue : List PendingFile} {path : String} (h : engine.InOrder) (mail : Mail)
    (hqueue : engine.program.queue = pending :: queue)
    (hpath : path ∈ (engine.loadNext read mail pending queue).program.failed) :
    path ∈ engine.program.failed ∨ read path = none := by
  rw [(h.attempted read mail hqueue).failed] at hpath
  split at hpath
  · exact Or.inl (List.mem_filter.1 hpath).1
  · rename_i hnone
    rcases List.mem_append.1 hpath with hold | hnew
    · exact Or.inl (List.mem_filter.1 hold).1
    · rw [Option.not_isSome_iff_eq_none, Option.or_eq_none_iff] at hnone
      rw [List.mem_singleton.1 hnew]
      exact Or.inr hnone.2

theorem InOrder.failed_loads {read : String → Option String} {path : String} (h : engine.InOrder)
    (mail : Mail) (count : Nat)
    (hpath : path ∈ (engine.perform (List.replicate count (.load read mail))).program.failed) :
    path ∈ engine.program.failed ∨ read path = none := by
  induction count generalizing engine with
  | zero => exact Or.inl hpath
  | succ count ih =>
    rcases ih (h.perform [.load read mail]) hpath with hfailed | hnone
    · cases hqueue : engine.program.queue with
      | nil =>
        change path ∈ (engine.act (.load read mail)).program.failed at hfailed
        rw [act_load_nil read mail hqueue] at hfailed
        exact Or.inl hfailed
      | cons pending queue =>
        change path ∈ (engine.act (.load read mail)).program.failed at hfailed
        rw [act_load_cons read mail hqueue] at hfailed
        exact h.failed_loadNext mail hqueue hfailed
    · exact Or.inr hnone

theorem InOrder.failed_act {action : Action} {path : String} (h : engine.InOrder)
    (hpath : path ∈ (engine.act action).program.failed) :
    path ∈ engine.program.failed ∨ ∃ read, action.disk? = some read ∧ read path = none := by
  have hlook : ∀ (engine : Engine Installed) mail,
      (engine.dispatch (Plugin.postInfer mail)).program.failed = engine.program.failed :=
    fun engine mail => (allows_postInfer mail engine).failed
  cases action with
  | step step =>
    cases step with
    | addFile other text origin =>
      obtain ⟨more, hmore, -⟩ := addFile_eq_queueing engine.program other text origin
      change path ∈ (engine.program.addFile other text origin).2.failed at hpath
      rw [hmore] at hpath
      exact Or.inl hpath
    | updateFile other text => exact Or.inl (List.mem_filter.1 hpath).1
    | analyze read mail =>
      change path ∈ (engine.analyze read mail).2.program.failed at hpath
      rw [analyze_eq_perform, perform_append] at hpath
      change path ∈ (Engine.dispatch _ _).program.failed at hpath
      rw [hlook] at hpath
      exact (h.failed_loads mail _ hpath).imp id fun hnone => ⟨read, rfl, hnone⟩
  | load read mail =>
    exact (h.failed_loads mail 1 hpath).imp id fun hnone => ⟨read, rfl, hnone⟩
  | look mail =>
    change path ∈ (engine.dispatch (Plugin.postInfer mail)).program.failed at hpath
    rw [hlook] at hpath
    exact Or.inl hpath

/-- Whatever is noted as failed could not be read at some time. -/
theorem InOrder.failed_perform {actions : List Action} {path : String} (h : engine.InOrder)
    (hpath : path ∈ (engine.perform actions).program.failed) :
    path ∈ engine.program.failed ∨
      ∃ action ∈ actions, ∃ read, action.disk? = some read ∧ read path = none := by
  induction actions generalizing engine with
  | nil => exact Or.inl hpath
  | cons action rest ih =>
    rcases ih (h.perform [action]) hpath with hfailed | ⟨later, hlater, hread⟩
    · exact (h.failed_act hfailed).imp id fun hread => ⟨action, List.mem_cons_self, hread⟩
    · exact Or.inr ⟨later, List.mem_cons_of_mem _ hlater, hread⟩

/-! ### Nothing is refused -/

theorem Starts.valid (h : engine.Starts config 0) :
    engine.InOrder ∧ engine.Valid ∧ engine.program.Inferred := by
  have horder := h.inOrder
  obtain ⟨resolver, ⟨before, after, hlength, hplugins⟩, hfresh, hprogram⟩ := h
  obtain ⟨hbefore, hafter⟩ := Nat.add_eq_zero_iff.1 hlength
  obtain rfl := List.length_eq_zero_iff.1 hbefore
  obtain rfl := List.length_eq_zero_iff.1 hafter
  refine ⟨horder, ⟨resolver, hplugins, ?_⟩, ?_⟩
  · unfold ResolverPlugin.work
    rw [hprogram, hfresh.state]
    exact .initial resolver.table
  · rw [hprogram]
    intro path loaded hloaded
    cases hloaded

/-- In a session with a resolver on its own, at every moment: all that is held is in the store, each
    loaded file has what was inferred from its text, and what is noted as failed could not be read.
    An analysis then meets no refusal of the store, in whatever part, and reports as failed only
    what cannot be read. -/
theorem nothing_refused (hstart : engine.Starts config 0) (actions : List Action) :
    let session := engine.perform actions
    session.Valid ∧ session.program.Inferred ∧
    (∀ path ∈ session.program.failed,
      ∃ action ∈ actions, ∃ read, action.disk? = some read ∧ read path = none) ∧
    ∀ read mail, ∃ attempts,
      Analyzed read mail session attempts (session.analyze read mail).1
        (session.analyze read mail).2 ∧
      session.Throughout mail
        (fun engine move => engine.Valid ∧ engine.refusals mail move = [])
        (course session.plugins.length attempts) ∧
      ∀ path ∈ (session.analyze read mail).1.failed, ∃ attempt ∈ attempts,
        Unread read path attempt := by
  intro session
  have hbegin := hstart.valid
  obtain ⟨horder, hvalid, hinferred⟩ := endures_valid.perform actions hbegin
  refine ⟨hvalid, hinferred, ?_, ?_⟩
  · intro path hpath
    obtain ⟨_, _, _, hprogram⟩ := hstart
    rcases hbegin.1.failed_perform hpath with hfailed | hread
    · rw [hprogram] at hfailed
      cases hfailed
    · exact hread
  · intro read mail
    have hanalyzed := horder.analyzed (horder.drained_pending read mail)
      (length_attempts_le session.pending session)
    exact ⟨_, hanalyzed, (hvalid.follow mail _).2, fun path hpath => hanalyzed.unread hpath⟩

end

/-- An engine whose resolver awaits the list of plugins and knows where a capability is found. -/
def switchable : Engine Installed :=
  .new [.resolver ⟨.default, .initial, .fixed ⟨[(.of "fs", "plugins/b/index")]⟩,
    some (.awaiting ⟨0⟩)⟩]

theorem starts_switchable : switchable.Starts .default 0 := by
  refine ⟨_, ⟨[], [], rfl, rfl⟩, ⟨rfl, rfl, ?_⟩, rfl⟩
  intro reply hreply _
  cases hreply
  rfl

def disablingMail : Mail := [.answered (.plugins [⟨"architect_resolver", false, none⟩])]

/-- A consumer is bound to its provider, which is found on disk. Then it gets a new text and is
    loaded past the disabled resolver, so the binding is still that of the former text. -/
def switchedActions : List Action :=
  [.step (.addFile "/m/plugins/a/index.js" (some consumerText) none),
    .step (.analyze (fun _ => none) [.awaited]),
    .step (.analyze (fun _ => some providerText) [.awaited]),
    .step (.updateFile "/m/plugins/a/index.js" "var a = 1;"),
    .step (.addFile "/gone.js" none none), .load (fun _ => none) disablingMail]

theorem performed_switched :
    let session := switchable.perform switchedActions
    (session.resolver?.bind fun resolver =>
        resolver.state.bound? "/m/plugins/a/index.js" "fs").isSome = true ∧
      session.program.fileNames = ["/m/plugins/b/index.js", "/m/plugins/a/index.js"] ∧
      (session.analyze (fun _ => none) disablingMail).1 = ⟨[], ["/gone.js"], 0⟩ := by
  decide +kernel

theorem nothing_refused_switched :
    let session := switchable.perform switchedActions
    switchable.Starts .default 0 ∧ session.Valid ∧ session.program.Inferred ∧
    (session.analyze (fun _ => none) disablingMail).1 = ⟨[], ["/gone.js"], 0⟩ ∧
    ∃ attempts,
      session.Throughout disablingMail
        (fun engine move => engine.Valid ∧ engine.refusals disablingMail move = [])
        (course session.plugins.length attempts) ∧
      ∃ attempt ∈ attempts, Unread (fun _ => none) "/gone.js" attempt := by
  obtain ⟨hvalid, hinferred, -, hanalyses⟩ := nothing_refused starts_switchable switchedActions
  obtain ⟨attempts, -, hthroughout, hfailed⟩ := hanalyses (fun _ => none) disablingMail
  refine ⟨starts_switchable, hvalid, hinferred, performed_switched.2.2, attempts, hthroughout,
    hfailed "/gone.js" ?_⟩
  rw [performed_switched.2.2]
  exact List.mem_singleton.2 rfl

end Engine

end Capabilities.Session
