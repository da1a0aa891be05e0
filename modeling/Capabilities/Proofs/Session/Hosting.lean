import Capabilities.Proofs.Resolver.Loading
import Capabilities.Session.Installed

/-!
# An engine with one resolver

The plugins of the engine are one resolver among any number of recorders. A recorder only asks for
files, so a hook comes to what the resolver makes of the program, up to what is put into the
queue. Loading a file past the plugins of an enabled resolver is then one step of its work.
-/

namespace Capabilities.Session

open Host Script Resolver Capabilities.Types

/-! ### Queueing -/

def Program.queueing (program : Program) (more : List PendingFile) : Program :=
  { program with queue := program.queue ++ more }

@[simp] theorem queueing_nil (program : Program) : program.queueing [] = program := by
  simp [Program.queueing]

@[simp] theorem queueing_queueing (program : Program) (first second : List PendingFile) :
    (program.queueing first).queueing second = program.queueing (first ++ second) := by
  simp [Program.queueing]

/-- Files to be loaded come in such a way that the queue stays in order. -/
def Program.MayQueue (program : Program) (more : List PendingFile) : Prop :=
  program.Orderly → (program.queueing more).Orderly

theorem Program.MayQueue.nil (program : Program) : program.MayQueue [] := by
  unfold MayQueue
  rw [queueing_nil]
  exact id

theorem addFile_eq_queueing (program : Program) (path : String) (text origin : Option String) :
    ∃ more, (program.addFile path text origin).2 = program.queueing more ∧
      program.MayQueue more := by
  have horderly : program.Orderly → (program.addFile path text origin).2.Orderly :=
    fun horderly => horderly.addFile path text origin
  have hadd : ∃ more, (program.addFile path text origin).2 = program.queueing more := by
    unfold Program.addFile
    split
    · exact ⟨[], (queueing_nil program).symm⟩
    · split
      · exact ⟨[], (queueing_nil program).symm⟩
      · exact ⟨_, rfl⟩
  obtain ⟨more, hmore⟩ := hadd
  rw [hmore] at horderly
  exact ⟨more, hmore, horderly⟩

theorem ask_eq_queueing (rules : List Rule) (events : List RecordedEvent) (program : Program) :
    ∃ more, (Recorder.ask rules events program).2 = program.queueing more ∧
      program.MayQueue more := by
  induction rules generalizing events program with
  | nil => exact ⟨[], (queueing_nil program).symm, .nil program⟩
  | cons rule rest ih =>
    obtain ⟨first, hfirst, hmay⟩ := addFile_eq_queueing program rule.path rule.text rule.origin
    obtain ⟨second, hsecond, hmay'⟩ := ih (events ++ [.asked rule.path
      (program.addFile rule.path rule.text rule.origin).1])
      (program.addFile rule.path rule.text rule.origin).2
    refine ⟨first ++ second, ?_, ?_⟩
    · rw [← queueing_queueing, ← hfirst]
      exact hsecond
    · intro horderly
      rw [← queueing_queueing, ← hfirst]
      refine hmay' ?_
      rw [hfirst]
      exact hmay horderly

/-! ### Hooks -/

/-- What a hook comes to: recorders only ask for files, resolvers do as `act` says. -/
structure Acts (hook : Installed → Program → Installed × Program)
    (act : ResolverPlugin → Program → ResolverPlugin × Program) : Prop where
  recorder : ∀ recorder program, ∃ next more,
    hook (.recorder recorder) program = (.recorder next, program.queueing more) ∧
      program.MayQueue more
  resolver : ∀ resolver program,
    hook (.resolver resolver) program =
      (.resolver (act resolver program).1, (act resolver program).2)

theorem note_eq_queueing (hook : Hook) (file : Option String) (recorder : Recorder)
    (program : Program) :
    ∃ next more, Recorder.note hook file recorder program = (next, program.queueing more) ∧
      program.MayQueue more := by
  obtain ⟨more, hmore, hmay⟩ := ask_eq_queueing (recorder.rules.filter (Recorder.applies hook file))
    (recorder.events ++ [.called hook file (file.map program.isLoaded) program.fileNames]) program
  refine ⟨(Recorder.note hook file recorder program).1, more, ?_, hmay⟩
  rw [← hmore]
  rfl

theorem acts_beforeLoad (mail : Mail) (path : String) :
    Acts (Plugin.beforeLoad mail path) (ResolverPlugin.beforeLoad mail path) := by
  refine ⟨?_, fun _ _ => rfl⟩
  intro recorder program
  obtain ⟨next, more, hnote, hmay⟩ := note_eq_queueing .before (some path) recorder program
  exact ⟨next, more, congrArg (fun result => (Installed.recorder result.1, result.2)) hnote,
    hmay⟩

theorem acts_afterLoad (mail : Mail) (path : String) :
    Acts (Plugin.afterLoad mail path) (ResolverPlugin.afterLoad mail path) := by
  refine ⟨?_, fun _ _ => rfl⟩
  intro recorder program
  obtain ⟨next, more, hnote, hmay⟩ := note_eq_queueing .after (some path) recorder program
  exact ⟨next, more, congrArg (fun result => (Installed.recorder result.1, result.2)) hnote,
    hmay⟩

theorem acts_postInfer (mail : Mail) :
    Acts (Plugin.postInfer mail) (ResolverPlugin.postInfer mail) := by
  refine ⟨?_, fun _ _ => rfl⟩
  intro recorder program
  obtain ⟨next, more, hnote, hmay⟩ := note_eq_queueing .post none recorder program
  exact ⟨next, more, congrArg (fun result => (Installed.recorder result.1, result.2)) hnote,
    hmay⟩

namespace Engine

variable {hook : Installed → Program → Installed × Program}
  {act : ResolverPlugin → Program → ResolverPlugin × Program}

theorem through_append (first second : List Installed) (program : Program) :
    dispatch.through hook (first ++ second) program =
      ((dispatch.through hook first program).1 ++
          (dispatch.through hook second (dispatch.through hook first program).2).1,
        (dispatch.through hook second (dispatch.through hook first program).2).2) := by
  induction first generalizing program with
  | nil => rfl
  | cons plugin rest ih => simp only [List.cons_append, dispatch.through, ih]

theorem through_recorders (h : Acts hook act) (recorders : List Recorder) (program : Program) :
    ∃ (nexts : List Recorder) (more : List PendingFile),
      dispatch.through hook (recorders.map .recorder) program =
        (nexts.map .recorder, program.queueing more) ∧
      nexts.length = recorders.length ∧ (recorders = [] → more = []) ∧
      program.MayQueue more := by
  induction recorders generalizing program with
  | nil => exact ⟨[], [], by rw [queueing_nil]; rfl, rfl, fun _ => rfl, .nil program⟩
  | cons recorder rest ih =>
    obtain ⟨next, first, hnext, hmay⟩ := h.recorder recorder program
    obtain ⟨nexts, second, hrest, hlength, _, hmay'⟩ := ih (program.queueing first)
    refine ⟨next :: nexts, first ++ second, ?_, by simp [hlength], by simp, ?_⟩
    · simp only [List.map_cons, dispatch.through, hnext, hrest, queueing_queueing]
    · intro horderly
      rw [← queueing_queueing]
      exact hmay' (hmay horderly)

/-- The plugins of an engine are a resolver and some number of recorders. -/
def Hosts (engine : Engine Installed) (resolver : ResolverPlugin) (others : Nat) : Prop :=
  ∃ before after : List Recorder, before.length + after.length = others ∧
    engine.plugins = before.map .recorder ++ .resolver resolver :: after.map .recorder

variable {engine : Engine Installed} {resolver : ResolverPlugin} {others : Nat}

theorem Hosts.resolver? (h : engine.Hosts resolver others) : engine.resolver? = some resolver := by
  obtain ⟨before, after, _, hplugins⟩ := h
  have hrecorders : (before.map Installed.recorder).findSome? Installed.resolver? = none := by
    rw [List.findSome?_eq_none_iff]
    intro plugin hplugin
    obtain ⟨recorder, _, rfl⟩ := List.mem_map.1 hplugin
    rfl
  unfold Engine.resolver?
  rw [hplugins, List.findSome?_append, hrecorders]
  rfl

/-- A resolver on its own asks for no files while files are loaded. -/
theorem Hosts.pending (h : engine.Hosts resolver 0) :
    engine.pending = engine.program.queue.length := by
  obtain ⟨before, after, hlength, hplugins⟩ := h
  obtain ⟨hbefore, hafter⟩ := Nat.add_eq_zero_iff.1 hlength
  obtain rfl := List.length_eq_zero_iff.1 hbefore
  obtain rfl := List.length_eq_zero_iff.1 hafter
  unfold Engine.pending
  rw [hplugins]
  rfl

/-- A hook of the engine is one of the resolver. -/
theorem Hosts.dispatch (h : engine.Hosts resolver others) (hacts : Acts hook act) :
    ∃ first last, (others = 0 → first = [] ∧ last = []) ∧ engine.program.MayQueue first ∧
      (act resolver (engine.program.queueing first)).2.MayQueue last ∧
      (engine.dispatch hook).Hosts (act resolver (engine.program.queueing first)).1 others ∧
      (engine.dispatch hook).program =
        (act resolver (engine.program.queueing first)).2.queueing last := by
  obtain ⟨before, after, hlength, hplugins⟩ := h
  obtain ⟨nexts, first, hbefore, hnexts, hnone, hmay⟩ :=
    through_recorders hacts before engine.program
  obtain ⟨lasts, last, hafter, hlasts, hnone', hmay'⟩ :=
    through_recorders hacts after (act resolver (engine.program.queueing first)).2
  have hdispatch : engine.dispatch hook =
      ⟨(act resolver (engine.program.queueing first)).2.queueing last,
        nexts.map .recorder ++
          .resolver (act resolver (engine.program.queueing first)).1 :: lasts.map .recorder⟩ := by
    unfold Engine.dispatch
    rw [hplugins, through_append, hbefore]
    simp only [Engine.dispatch.through, hacts.resolver, hafter]
  rw [hdispatch]
  refine ⟨first, last, ?_, hmay, hmay', ⟨nexts, lasts, by omega, rfl⟩, rfl⟩
  rintro rfl
  obtain ⟨hb, ha⟩ := Nat.add_eq_zero_iff.1 hlength
  exact ⟨hnone (List.length_eq_zero_iff.1 hb), hnone' (List.length_eq_zero_iff.1 ha)⟩

/-! ### Loading -/

section

variable {π : Type}

/-- The engine with the text of a file among the loaded ones, before it is inferred. -/
def opening [Parser] (engine : Engine π) (pending : PendingFile) (text : String) : Engine π :=
  { engine with program := { engine.program with
    files := engine.program.files.put pending.path
      ⟨.ofText pending.path text, .empty, pending.origin⟩ } }

def inferring (engine : Engine π) (store : Store) (path : String) (loaded : LoadedFile)
    (inference : Inference.FileInference) : Engine π :=
  { engine with program := { engine.program with
    store := store
    files := engine.program.files.put path { loaded with inference := inference } } }

variable {engine : Engine π} {read : String → Option String} {mail : Mail} {pending : PendingFile}
  {text : String} {store : Store}

theorem get?_inferring (path : String) (loaded : LoadedFile) (inference : Inference.FileInference)
    (more : List PendingFile) :
    ((engine.inferring store path loaded inference).program.queueing more).files.get? path =
      some { loaded with inference := inference } :=
  Keyed.get?_put_self _ _ _

theorem file?_inferring (path : String) (loaded : LoadedFile) (inference : Inference.FileInference)
    (more : List PendingFile) :
    ((engine.inferring store path loaded inference).program.queueing more).file? path =
      some loaded.source := by
  unfold Program.file?
  rw [get?_inferring]
  rfl

theorem expression?_inferring (path : String) (loaded : LoadedFile)
    (inference : Inference.FileInference) (more : List PendingFile) (id : Nat) :
    ((engine.inferring store path loaded inference).program.queueing more).expression? path id =
      inference.expression? id := by
  unfold Program.expression?
  rw [get?_inferring]
  rfl

variable [Plugin π]

variable [Parser]

theorem load_unreadable (h : pending.text.or (read pending.path) = none) :
    engine.load read mail pending = (false, engine) := by
  unfold load
  rw [h]

/-- A file that cannot be inferred stays among the loaded ones. -/
theorem load_refused (htext : pending.text.or (read pending.path) = some text)
    {announced : Engine π}
    (hannounced : (engine.opening pending text).dispatch (Plugin.beforeLoad mail pending.path) =
      announced) {error : StoreError}
    (hinfer : Inference.inferFile pending.path (parse text) announced.program.store =
      (.error error, store)) :
    engine.load read mail pending =
      (false, { announced with program := { announced.program with store := store } }) := by
  subst hannounced
  have hinfer' : Inference.inferFile pending.path (SourceFile.ofText pending.path text).root
      ((engine.opening pending text).dispatch (Plugin.beforeLoad mail pending.path)).program.store =
        (.error error, store) := hinfer
  unfold opening at hinfer' ⊢
  unfold load
  simp only [htext, hinfer']

theorem load_inferred (htext : pending.text.or (read pending.path) = some text)
    {announced : Engine π}
    (hannounced : (engine.opening pending text).dispatch (Plugin.beforeLoad mail pending.path) =
      announced) {loaded : LoadedFile} {inference : Inference.FileInference}
    (hloaded : announced.program.files.get? pending.path = some loaded)
    (hinfer : Inference.inferFile pending.path (parse text) announced.program.store =
      (.ok inference, store)) :
    engine.load read mail pending =
      (true, (announced.inferring store pending.path loaded inference).dispatch
        (Plugin.afterLoad mail pending.path)) := by
  subst hannounced
  have hinfer' : Inference.inferFile pending.path (SourceFile.ofText pending.path text).root
      ((engine.opening pending text).dispatch (Plugin.beforeLoad mail pending.path)).program.store =
        (.ok inference, store) := hinfer
  unfold opening at hinfer' hloaded ⊢
  unfold load
  simp only [htext, hinfer', hloaded]
  rfl

end

theorem poll_poll (mail : Mail) (resolver : ResolverPlugin) :
    (resolver.poll mail).poll mail = resolver.poll mail := by
  unfold ResolverPlugin.poll
  cases resolver.plugins with
  | none => rfl
  | some reply => simp [poll_poll_reply]

theorem beforeLoad_eq {mail : Mail} (path : String) (program : Program)
    (h : (resolver.poll mail).isEnabled = true) :
    ResolverPlugin.beforeLoad mail path resolver program =
      ({ resolver.poll mail with state := resolver.state.resetFile path }, program) := by
  unfold ResolverPlugin.beforeLoad
  simp only [h, if_true]
  rfl

theorem afterLoad_eq {mail : Mail} {path : String} {program : Program} {work : Work}
    (h : (resolver.poll mail).isEnabled = true)
    (hrun : (synthesize resolver.config path).runOn (resolver.work program) = (.ok (), work)) :
    ResolverPlugin.afterLoad mail path resolver program =
      ({ resolver.poll mail with state := work.state.setStage path .parsed, table := work.table },
        work.program) := by
  have hrun' : (synthesize (resolver.poll mail).config path).runOn
      ((resolver.poll mail).work program) = (.ok (), work) := hrun
  unfold ResolverPlugin.afterLoad
  simp only [h, if_true, hrun']
  rfl

theorem postInfer_eq {mail : Mail} (program : Program)
    (h : (resolver.poll mail).isEnabled = true) :
    ResolverPlugin.postInfer mail resolver program =
      (resolver.poll mail).after (bindProgram resolver.config mail (resolver.work program)) := by
  unfold ResolverPlugin.postInfer
  simp only [h, if_true]
  rfl

/-- With an enabled resolver the first announcement of a file resets what is known of it. -/
theorem Hosts.announce {mail : Mail} (h : engine.Hosts resolver others)
    (henabled : (resolver.poll mail).isEnabled = true) (path : String) :
    (engine.dispatch (Plugin.beforeLoad mail path)).Hosts
        { resolver.poll mail with state := resolver.state.resetFile path } others ∧
      ∃ more, (others = 0 → more = []) ∧ engine.program.MayQueue more ∧
        (engine.dispatch (Plugin.beforeLoad mail path)).program =
          engine.program.queueing more := by
  obtain ⟨first, second, hnone, hfirst, hsecond, hhosts, hprogram⟩ :=
    h.dispatch (acts_beforeLoad mail path)
  rw [beforeLoad_eq path _ henabled] at hhosts hprogram hsecond
  refine ⟨hhosts, first ++ second, ?_, ?_, ?_⟩
  · intro hzero
    obtain ⟨rfl, rfl⟩ := hnone hzero
    rfl
  · intro horderly
    rw [← queueing_queueing]
    exact hsecond (hfirst horderly)
  · rw [hprogram, queueing_queueing]

variable [Parser]

/-- With an enabled resolver the second announcement of a file registers what it provides. -/
theorem Hosts.provide {mail : Mail} {path text : String} {shift : Shift} {base : Store}
    (h : engine.Hosts resolver others) (henabled : (resolver.poll mail).isEnabled = true)
    (hrun : ∀ more, ∃ after, (synthesize resolver.config path).runOn
        (resolver.work (engine.program.queueing more)) = (.ok (), after) ∧
      Provides resolver.config path text shift base
        (resolver.work (engine.program.queueing more)) after) :
    ∃ after first last, (others = 0 → first = [] ∧ last = []) ∧
      engine.program.MayQueue first ∧ after.program.MayQueue last ∧
      Provides resolver.config path text shift base
        (resolver.work (engine.program.queueing first)) after ∧
      (engine.dispatch (Plugin.afterLoad mail path)).Hosts
        { resolver.poll mail with
          state := after.state.setStage path .parsed
          table := after.table } others ∧
      (engine.dispatch (Plugin.afterLoad mail path)).program = after.program.queueing last := by
  obtain ⟨first, last, hnone, hfirst, hlast, hhosts, hprogram⟩ :=
    h.dispatch (acts_afterLoad mail path)
  obtain ⟨after, hran, hafter⟩ := hrun first
  rw [afterLoad_eq henabled hran] at hhosts hprogram hlast
  exact ⟨after, first, last, hnone, hfirst, hlast, hafter, hhosts, hprogram⟩

/-- Loading a file with an enabled resolver is never refused. -/
theorem Hosts.load {mail : Mail} {read : String → Option String} {pending : PendingFile}
    {text : String} (h : engine.Hosts resolver others)
    (henabled : (resolver.poll mail).isEnabled = true)
    (hready : Ready resolver.config (resolver.work engine.program))
    (htext : pending.text.or (read pending.path) = some text) :
    ∃ next loaded asked, engine.load read mail pending = (true, next) ∧
      next.Hosts loaded others ∧ loaded.config = resolver.config ∧
      loaded.plugins = (resolver.poll mail).plugins ∧ (others = 0 → asked = []) ∧
      Work.Loads resolver.config pending.path text pending.origin hready.sound.frontier asked
        (resolver.work engine.program) (loaded.work next.program) := by
  let path := pending.path
  let opened : LoadedFile := ⟨.ofText path text, .empty, pending.origin⟩
  let found := provision resolver.config path text
  let inference := found.inference.move hready.sound.frontier
  -- the file is announced
  have hopened : (engine.opening pending text).Hosts resolver others := h
  obtain ⟨hhosts, more, hnone, hmay, hprogram⟩ := hopened.announce henabled path
  let reset : ResolverPlugin := { resolver.poll mail with
    state := resolver.state.resetFile path }
  generalize hannounced : (engine.opening pending text).dispatch
    (Plugin.beforeLoad mail path) = announced at hhosts hprogram
  have hthere : announced.program.files.get? path = some opened := by
    rw [hprogram]
    exact Keyed.get?_put_self _ _ _
  -- it is inferred
  obtain ⟨whole, hwhole, hprovides⟩ := inferFile_provision hready.sound resolver.config path text
  have hinfer : Inference.inferFile path (parse text) announced.program.store =
      (.ok inference, whole) := by
    rw [hprogram]
    exact hwhole
  let inferred := announced.inferring whole path opened inference
  have hinferredHosts : inferred.Hosts reset others := hhosts
  have hinferred : inferred.program = { engine.program with
      store := whole
      files := engine.program.files.put path ⟨.ofText path text, inference, pending.origin⟩
      queue := engine.program.queue ++ more } := by
    simp only [inferred, inferring, hprogram, opening, Program.queueing, Keyed.put_put, opened,
      path]
  -- it is announced again
  have hresetEnabled : (reset.poll mail).isEnabled = true := by
    have hsame : reset.poll mail =
        { (resolver.poll mail).poll mail with state := reset.state } := rfl
    rw [hsame, poll_poll]
    exact henabled
  obtain ⟨after, third, fourth, hnone', hthird, hfourth, hafter, hhosts', hprogram'⟩ :=
    hinferredHosts.provide hresetEnabled fun asked => hprovides
      (reset.work (inferred.program.queueing asked)) rfl
      (file?_inferring path opened inference asked)
      fun id => (expression?_inferring path opened inference asked id).trans
        (Inference.FileInference.expression?_move hready.sound.frontier found.inference id)
  let loaded : ResolverPlugin := { reset.poll mail with
    state := after.state.setStage path .parsed
    table := after.table }
  have hplugins : loaded.plugins = ((resolver.poll mail).poll mail).plugins := rfl
  have hwork : loaded.work (inferred.dispatch (Plugin.afterLoad mail path)).program =
      ⟨after.program.queueing fourth, after.state.setStage path .parsed, after.table⟩ := by
    rw [hprogram']
    rfl
  refine ⟨inferred.dispatch (Plugin.afterLoad mail path), loaded, more ++ (third ++ fourth),
    load_inferred htext hannounced hthere hinfer, hhosts', rfl, ?_, ?_, ?_⟩
  · rw [hplugins, poll_poll]
  · intro hzero
    obtain ⟨rfl, rfl⟩ := hnone' hzero
    rw [hnone hzero]
    rfl
  · rw [hwork]
    refine ⟨hafter.inside, hafter.registry, hafter.provided, ?_, ?_, hafter.table, ?_⟩
    · have hafterProgram := hafter.program
      simp only [ResolverPlugin.work, hinferred, Program.queueing] at hafterProgram
      unfold Program.queueing
      rw [hafterProgram]
      simp only [ResolverPlugin.work, List.append_assoc]
      rfl
    · have hafterState := hafter.state
      change after.state.setStage path .parsed = _
      unfold State.setStage
      rw [hafterState]
      rfl
    · intro hunqueued horderly
      have hannouncedOrderly : announced.program.Orderly := by
        rw [hprogram]
        exact hmay (horderly.put hunqueued)
      have hinferredOrderly : inferred.program.Orderly :=
        (hannouncedOrderly.putAgain ⟨_, hthere⟩).of_same rfl rfl
      refine hfourth ((hthird hinferredOrderly).of_same ?_ ?_)
      · rw [hafter.program]
        rfl
      · rw [hafter.program]
        rfl

end Engine

end Capabilities.Session
