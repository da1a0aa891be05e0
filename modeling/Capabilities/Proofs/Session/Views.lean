import Capabilities.Proofs.Session.Course

/-!
# Engines seen through some of their plugins

Of each plugin of an engine another plugin is shown, or nothing. If the hooks of the plugins that
are shown do what the hooks of their images do, and the others leave the program alone, then the
engine of the images does what the engine does: it *mirrors* it. That is said of the hooks
(`Shows`), and carried from there through calling all plugins, loading a file and a whole analysis.
Which plugins behave so may depend on the letters of the host, and is said by a condition that
their hooks keep.

Recorders ask for files and write nothing to the store. So in an engine that has only recorders the
store is what inference makes of it, attempt by attempt.
-/

namespace Capabilities.Session

open Host Script Inference Capabilities.Types

namespace Engine

variable {π ρ : Type}

/-- What plugins are called for comes to the same for plugins and what is shown of them. -/
structure Shows [Plugin π] [Plugin ρ] (view : π → Option ρ) (mail : Mail)
    (fit : π → Prop) : Prop where
  seen : ∀ (event : Event) plugin shown program, fit plugin → view plugin = some shown →
    view (event.hook mail plugin program).1 = some (event.hook mail shown program).1 ∧
      (event.hook mail plugin program).2 = (event.hook mail shown program).2
  unseen : ∀ (event : Event) plugin program, fit plugin → view plugin = none →
    view (event.hook mail plugin program).1 = none ∧
      (event.hook mail plugin program).2 = program
  keeps : ∀ (event : Event) plugin program, fit plugin → fit (event.hook mail plugin program).1
  demand : ∀ plugin, fit plugin →
    Plugin.demand plugin = ((view plugin).map Plugin.demand).getD 0

def viewed (view : π → Option ρ) (engine : Engine π) : Engine ρ :=
  ⟨engine.program, engine.plugins.filterMap view⟩

/-- An engine of what is shown of plugins that are as they should be. -/
structure Mirrors (view : π → Option ρ) (fit : π → Prop) (engine : Engine π) (shown : Engine ρ) :
    Prop where
  shown : shown = engine.viewed view
  fit : ∀ plugin ∈ engine.plugins, fit plugin

variable {view : π → Option ρ} {fit : π → Prop} {mail : Mail} {engine : Engine π}
  {shown : Engine ρ} {read : String → Option String} {pending : PendingFile}

theorem Mirrors.program (h : Mirrors view fit engine shown) : shown.program = engine.program := by
  rw [h.shown]
  rfl

theorem Mirrors.withProgram (h : Mirrors view fit engine shown) (program : Program) :
    Mirrors view fit { engine with program := program } { shown with program := program } := by
  refine ⟨?_, h.fit⟩
  rw [h.shown]
  rfl

variable [Plugin π] [Plugin ρ]

/-! ### Calling plugins -/

theorem Shows.through (h : Shows view mail fit) (event : Event) {plugins : List π}
    (hfit : ∀ plugin ∈ plugins, fit plugin) (program : Program) :
    dispatch.through (event.hook mail) (plugins.filterMap view) program =
        ((dispatch.through (event.hook mail) plugins program).1.filterMap view,
          (dispatch.through (event.hook mail) plugins program).2) ∧
      ∀ plugin ∈ (dispatch.through (event.hook mail) plugins program).1, fit plugin := by
  induction plugins generalizing program with
  | nil =>
    refine ⟨rfl, ?_⟩
    intro plugin hplugin
    cases hplugin
  | cons plugin rest ih =>
    rw [List.forall_mem_cons] at hfit
    obtain ⟨hrest, hfits⟩ := ih hfit.2 (event.hook mail plugin program).2
    have hfirst := h.keeps event plugin program hfit.1
    simp only [dispatch.through, List.forall_mem_cons]
    refine ⟨?_, hfirst, hfits⟩
    cases hview : view plugin with
    | none =>
      obtain ⟨hunseen, hprogram⟩ := h.unseen event plugin program hfit.1 hview
      rw [hprogram] at hrest ⊢
      rw [List.filterMap_cons_none hview, List.filterMap_cons_none hunseen, hrest]
    | some image =>
      obtain ⟨hseen, hprogram⟩ := h.seen event plugin image program hfit.1 hview
      rw [hprogram] at hrest ⊢
      rw [List.filterMap_cons_some hview, List.filterMap_cons_some hseen]
      simp only [dispatch.through, hrest]

theorem Shows.dispatch (h : Shows view mail fit) (hmirrors : Mirrors view fit engine shown)
    (event : Event) :
    Mirrors view fit (engine.dispatch (event.hook mail)) (shown.dispatch (event.hook mail)) := by
  obtain ⟨hthrough, hfits⟩ := h.through event hmirrors.fit engine.program
  refine ⟨?_, hfits⟩
  rw [hmirrors.shown, Engine.dispatch, viewed, hthrough]
  rfl

/-! ### Loading -/

variable [Parser]

/-- The steps of loading a file that has a text. -/
theorem load_eq {text : String} (htext : pending.text.or (read pending.path) = some text)
    {announced : Engine π}
    (hannounced : (engine.opening pending text).dispatch (Plugin.beforeLoad mail pending.path) =
      announced) :
    engine.load read mail pending =
      let inferred : Engine π :=
        { announced with program := inferAt pending.path text announced.program }
      match (inferFile pending.path (parse text) announced.program.store).1 with
      | .error _ => (false, inferred)
      | .ok _ => (true, inferred.dispatch (Plugin.afterLoad mail pending.path)) := by
  cases hinfer : inferFile pending.path (parse text) announced.program.store with
  | mk outcome store =>
    cases outcome with
    | error error =>
      rw [load_refused htext hannounced hinfer]
      simp [inferAt, hinfer]
    | ok inference =>
      cases hget : announced.program.files.get? pending.path with
      | some loaded =>
        rw [load_inferred htext hannounced hget hinfer]
        simp [inferAt, hinfer, hget, inferring]
      | none =>
        subst hannounced
        have hinfer' : inferFile pending.path (SourceFile.ofText pending.path text).root
            ((engine.opening pending text).dispatch
              (Plugin.beforeLoad mail pending.path)).program.store =
            (.ok inference, store) := hinfer
        unfold opening at hinfer' hget hinfer ⊢
        unfold load
        simp only [htext, hinfer', hget, inferAt, hinfer]

theorem Shows.load (h : Shows view mail fit) (hmirrors : Mirrors view fit engine shown)
    (read : String → Option String) (pending : PendingFile) :
    (shown.load read mail pending).1 = (engine.load read mail pending).1 ∧
      Mirrors view fit (engine.load read mail pending).2 (shown.load read mail pending).2 := by
  cases htext : pending.text.or (read pending.path) with
  | none =>
    rw [load_unreadable htext, load_unreadable htext]
    exact ⟨rfl, hmirrors⟩
  | some text =>
    have hopened : Mirrors view fit (engine.opening pending text) (shown.opening pending text) := by
      unfold opening
      rw [hmirrors.program]
      exact hmirrors.withProgram _
    have hannounced := h.dispatch hopened (.before pending.path)
    rw [load_eq htext rfl, load_eq htext rfl]
    change Mirrors view fit
      ((engine.opening pending text).dispatch (Plugin.beforeLoad mail pending.path))
      ((shown.opening pending text).dispatch (Plugin.beforeLoad mail pending.path)) at hannounced
    generalize (engine.opening pending text).dispatch (Plugin.beforeLoad mail pending.path) =
      announced at hannounced ⊢
    generalize (shown.opening pending text).dispatch (Plugin.beforeLoad mail pending.path) =
      image at hannounced ⊢
    rw [hannounced.program]
    have hinferred := hannounced.withProgram (inferAt pending.path text announced.program)
    cases (inferFile pending.path (parse text) announced.program.store).1 with
    | error error => exact ⟨rfl, hinferred⟩
    | ok inference => exact ⟨rfl, h.dispatch hinferred (.after pending.path)⟩

theorem Shows.loadNext (h : Shows view mail fit) (hmirrors : Mirrors view fit engine shown)
    (read : String → Option String) (pending : PendingFile) (queue : List PendingFile) :
    Mirrors view fit (engine.loadNext read mail pending queue)
      (shown.loadNext read mail pending queue) := by
  have hpopped := hmirrors.withProgram { engine.program with queue := queue }
  obtain ⟨hsucceeded, hloaded⟩ := h.load hpopped read pending
  unfold Engine.loadNext
  dsimp only at hsucceeded hloaded ⊢
  rw [hmirrors.program, hsucceeded, hloaded.program]
  exact hloaded.withProgram _

/-! ### Turns -/

/-- A step of a session or a part of an analysis. It reads the letters that are there when it is
    its turn. -/
inductive Turn where
  | addFile (path : String) (text origin : Option String)
  | updateFile (path text : String)
  | analyze (read : String → Option String)
  | load (read : String → Option String)
  | look

def Turn.action (mail : Mail) : Turn → Action
  | .addFile path text origin => .step (.addFile path text origin)
  | .updateFile path text => .step (.updateFile path text)
  | .analyze read => .step (.analyze read mail)
  | .load read => .load read mail
  | .look => .look mail

omit [Parser] in
theorem Shows.pending_eq (h : Shows view mail fit) (hmirrors : Mirrors view fit engine shown) :
    shown.pending = engine.pending := by
  have hfold : ∀ plugins : List π, (∀ plugin ∈ plugins, fit plugin) → ∀ total : Nat,
      (plugins.filterMap view).foldl (fun total plugin => total + Plugin.demand plugin) total =
        plugins.foldl (fun total plugin => total + Plugin.demand plugin) total := by
    intro plugins
    induction plugins with
    | nil => exact fun _ _ => rfl
    | cons plugin rest ih =>
      intro hfit total
      rw [List.forall_mem_cons] at hfit
      rw [List.foldl_cons, h.demand plugin hfit.1, ← ih hfit.2]
      cases hview : view plugin with
      | none => rw [List.filterMap_cons_none hview]; rfl
      | some image => rw [List.filterMap_cons_some hview]; rfl
  rw [hmirrors.shown]
  exact hfold engine.plugins hmirrors.fit engine.program.queue.length

theorem Shows.act_load (h : Shows view mail fit) (hmirrors : Mirrors view fit engine shown)
    (read : String → Option String) :
    Mirrors view fit (engine.act (.load read mail)) (shown.act (.load read mail)) := by
  cases hqueue : engine.program.queue with
  | nil =>
    rw [act_load_nil read mail hqueue, act_load_nil read mail (hmirrors.program ▸ hqueue)]
    exact hmirrors
  | cons pending queue =>
    rw [act_load_cons read mail hqueue, act_load_cons read mail (hmirrors.program ▸ hqueue)]
    exact h.loadNext hmirrors read pending queue

theorem Shows.loads (h : Shows view mail fit) (hmirrors : Mirrors view fit engine shown)
    (read : String → Option String) (count : Nat) :
    Mirrors view fit (engine.perform (List.replicate count (.load read mail)))
      (shown.perform (List.replicate count (.load read mail))) := by
  induction count generalizing engine shown with
  | zero => exact hmirrors
  | succ count ih => exact ih (h.act_load hmirrors read)

/-- What is shown goes on mirroring the engine, whatever is done with both. -/
theorem Shows.act (h : Shows view mail fit) (hmirrors : Mirrors view fit engine shown)
    (turn : Turn) :
    Mirrors view fit (engine.act (turn.action mail)) (shown.act (turn.action mail)) := by
  cases turn with
  | addFile path text origin =>
    change Mirrors view fit
      { engine with program := (engine.program.addFile path text origin).2 }
      { shown with program := (shown.program.addFile path text origin).2 }
    rw [hmirrors.program]
    exact hmirrors.withProgram _
  | updateFile path text =>
    change Mirrors view fit { engine with program := engine.program.updateFile path text }
      { shown with program := shown.program.updateFile path text }
    rw [hmirrors.program]
    exact hmirrors.withProgram _
  | analyze read =>
    change Mirrors view fit (engine.analyze read mail).2 (shown.analyze read mail).2
    rw [analyze_eq_perform, analyze_eq_perform, perform_append, perform_append,
      h.pending_eq hmirrors]
    exact h.dispatch (h.loads hmirrors read engine.pending) .post
  | load read => exact h.act_load hmirrors read
  | look => exact h.dispatch hmirrors .post

/-! ### Attempts -/

def Turn.attempts (mail : Mail) (engine : Engine π) : Turn → List Attempt
  | .analyze read => engine.attempts read mail engine.pending
  | .load read => engine.attempts read mail 1
  | _ => []

theorem Shows.attempts (h : Shows view mail fit) (hmirrors : Mirrors view fit engine shown)
    (read : String → Option String) (steps : Nat) :
    shown.attempts read mail steps = engine.attempts read mail steps := by
  induction steps generalizing engine shown with
  | zero => rfl
  | succ steps ih =>
    cases hqueue : engine.program.queue with
    | nil => rw [attempts_nil hqueue, attempts_nil (hmirrors.program ▸ hqueue)]
    | cons pending queue =>
      rw [attempts_cons hqueue, attempts_cons (hmirrors.program ▸ hqueue),
        ih (h.loadNext hmirrors read pending queue)]

theorem Shows.attempts_turn (h : Shows view mail fit) (hmirrors : Mirrors view fit engine shown)
    (turn : Turn) : turn.attempts mail shown = turn.attempts mail engine := by
  cases turn with
  | analyze read =>
    change shown.attempts read mail shown.pending = engine.attempts read mail engine.pending
    rw [h.pending_eq hmirrors, h.attempts hmirrors]
  | load read => exact h.attempts hmirrors read 1
  | _ => rfl

end Engine

/-! ### Recorders on their own -/

/-- The store with what is inferred in an attempt to load a file. -/
def Attempt.infer [Parser] (store : Store) (attempt : Attempt) : Store :=
  match attempt.text with
  | none => store
  | some text => (Inference.inferFile attempt.file.path (parse text) store).2

namespace Engine

variable {engine : Engine Recorder}

/-- A recorder writes nothing to the store. -/
theorem store_hook (mail : Mail) (event : Event) (recorder : Recorder) (program : Program) :
    (event.hook mail recorder program).2.store = program.store := by
  have hnote : ∀ hook file, (Recorder.note hook file recorder program).2.store =
      program.store := by
    intro hook file
    obtain ⟨next, more, heq, -⟩ := note_eq_queueing hook file recorder program
    rw [heq]
    rfl
  cases event with
  | before file => exact hnote .before (some file)
  | after file => exact hnote .after (some file)
  | post => exact hnote .post none

theorem store_dispatch (mail : Mail) (event : Event) (engine : Engine Recorder) :
    (engine.dispatch (event.hook mail)).program.store = engine.program.store := by
  have hthrough : ∀ (recorders : List Recorder) (program : Program),
      (dispatch.through (event.hook mail) recorders program).2.store = program.store := by
    intro recorders
    induction recorders with
    | nil => exact fun _ => rfl
    | cons recorder rest ih =>
      intro program
      exact (ih _).trans (store_hook mail event recorder program)
  exact hthrough engine.plugins engine.program

variable [Parser]

theorem store_inferAt (path text : String) (program : Program) :
    (inferAt path text program).store =
      (Inference.inferFile path (parse text) program.store).2 := by
  unfold inferAt
  dsimp only
  split <;> rfl

theorem store_loadNext (engine : Engine Recorder) (read : String → Option String) (mail : Mail)
    (pending : PendingFile) (queue : List PendingFile) :
    (engine.loadNext read mail pending queue).program.store =
      Attempt.infer engine.program.store ⟨pending, pending.text.or (read pending.path)⟩ := by
  have hload : ((engine.popping queue).load read mail pending).2.program.store =
      Attempt.infer engine.program.store ⟨pending, pending.text.or (read pending.path)⟩ := by
    unfold Attempt.infer
    cases htext : pending.text.or (read pending.path) with
    | none =>
      rw [load_unreadable htext]
      rfl
    | some text =>
      have hannounced :
          (((engine.popping queue).opening pending text).dispatch
            (Plugin.beforeLoad mail pending.path)).program.store = engine.program.store :=
        store_dispatch mail (.before pending.path) _
      rw [load_eq htext rfl]
      dsimp only
      rw [← hannounced, ← store_inferAt]
      split
      · rfl
      · exact store_dispatch mail (.after pending.path) _
  exact hload

/-- Only the attempts of a turn write to the store. -/
theorem store_turn (engine : Engine Recorder) (mail : Mail) (turn : Turn) :
    (engine.act (turn.action mail)).program.store =
      (turn.attempts mail engine).foldl Attempt.infer engine.program.store := by
  have hdrain : ∀ (read : String → Option String) (steps : Nat) (engine : Engine Recorder),
      (engine.perform (List.replicate steps (.load read mail))).program.store =
        (engine.attempts read mail steps).foldl Attempt.infer engine.program.store := by
    intro read steps
    induction steps with
    | zero => exact fun _ => rfl
    | succ steps ih =>
      intro engine
      change ((engine.act (.load read mail)).perform
        (List.replicate steps (.load read mail))).program.store = _
      rw [ih]
      cases hqueue : engine.program.queue with
      | nil =>
        rw [act_load_nil read mail hqueue, attempts_nil hqueue, attempts_nil hqueue]
      | cons pending queue =>
        rw [act_load_cons read mail hqueue, attempts_cons hqueue, List.foldl_cons, store_loadNext]
  cases turn with
  | addFile path text origin =>
    obtain ⟨more, hmore, -⟩ := addFile_eq_queueing engine.program path text origin
    change (engine.program.addFile path text origin).2.store = engine.program.store
    rw [hmore]
    rfl
  | updateFile path text => rfl
  | analyze read =>
    change (engine.analyze read mail).2.program.store = _
    rw [analyze_eq_perform, perform_append]
    exact (store_dispatch mail .post _).trans (hdrain read engine.pending engine)
  | load read => exact hdrain read 1 engine
  | look => exact store_dispatch mail .post engine

end Engine

end Capabilities.Session
