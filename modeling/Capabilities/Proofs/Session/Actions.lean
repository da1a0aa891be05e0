import Capabilities.Proofs.Session.Run

/-!
# A session seen from within

An analysis loads the queue file by file and lets the plugins look at the whole program in the
end. An `Action` is one of these parts, or a whole step of a session. What holds after any actions
holds at each moment between two files of an analysis too, and the disk and the letters of the host
may be others each time.
-/

namespace Capabilities.Session

open Host

/-- A step of a session, or a part of an analysis: loading the next file of the queue, or the look
    at the whole program. -/
inductive Action where
  | step (step : Step)
  | load (read : String → Option String) (mail : Mail)
  | look (mail : Mail)

namespace Engine

variable {π : Type} [Plugin π] {P : Engine π → Prop}

section

variable [Script.Parser]

/-- The engine after an action. With an empty queue no file is loaded. -/
def act (engine : Engine π) : Action → Engine π
  | .step step => engine.step step
  | .load read mail =>
    match engine.program.queue with
    | [] => engine
    | pending :: queue => engine.loadNext read mail pending queue
  | .look mail => engine.dispatch (Plugin.postInfer mail)

def perform (engine : Engine π) (actions : List Action) : Engine π := actions.foldl act engine

theorem perform_append (engine : Engine π) (first second : List Action) :
    engine.perform (first ++ second) = (engine.perform first).perform second :=
  List.foldl_append ..

theorem perform_steps (engine : Engine π) (steps : List Step) :
    engine.perform (steps.map .step) = engine.run steps := by
  unfold perform run
  rw [List.foldl_map]
  rfl

theorem act_load_nil {engine : Engine π} (read : String → Option String) (mail : Mail)
    (h : engine.program.queue = []) : engine.act (.load read mail) = engine := by
  simp only [act, h]

theorem act_load_cons {engine : Engine π} {pending : PendingFile} {queue : List PendingFile}
    (read : String → Option String) (mail : Mail) (h : engine.program.queue = pending :: queue) :
    engine.act (.load read mail) = engine.loadNext read mail pending queue := by
  simp only [act, h]

/-- Draining the queue is loading one file after the other. -/
theorem drain_eq_perform (engine : Engine π) (read : String → Option String) (mail : Mail)
    (steps : Nat) :
    (engine.drain read mail steps).2.2 =
      engine.perform (List.replicate steps (.load read mail)) := by
  induction steps generalizing engine with
  | zero => rfl
  | succ steps ih =>
    have hperform : engine.perform (List.replicate (steps + 1) (.load read mail)) =
        (engine.act (.load read mail)).perform (List.replicate steps (.load read mail)) := rfl
    rw [hperform]
    cases hqueue : engine.program.queue with
    | nil => rw [act_load_nil read mail hqueue, ← ih, drain_nil _ hqueue, drain_nil _ hqueue]
    | cons pending queue => rw [act_load_cons read mail hqueue, ← ih, drain_cons _ hqueue]

/-- An analysis loads as many files as may be pending and takes one look. -/
theorem analyze_eq_perform (engine : Engine π) (read : String → Option String) (mail : Mail) :
    (engine.analyze read mail).2 =
      engine.perform (List.replicate engine.pending (.load read mail) ++ [.look mail]) := by
  rw [perform_append, ← drain_eq_perform]
  rfl

/-! ### What every part keeps -/

/-- Every part of an analysis keeps a property. -/
structure Persists (P : Engine π → Prop) : Prop where
  load : ∀ engine read mail pending queue, engine.program.queue = pending :: queue → P engine →
    P (engine.loadNext read mail pending queue)
  look : ∀ engine mail, P engine → P (engine.dispatch (Plugin.postInfer mail))

/-- Every part of a session keeps a property. -/
structure Endures (P : Engine π → Prop) : Prop where
  addFile : ∀ engine path text origin, P engine → P (engine.step (.addFile path text origin))
  updateFile : ∀ engine path text, P engine → P (engine.step (.updateFile path text))
  load : ∀ engine read mail pending queue, engine.program.queue = pending :: queue → P engine →
    P (engine.loadNext read mail pending queue)
  look : ∀ engine mail, P engine → P (engine.dispatch (Plugin.postInfer mail))

end

namespace Persists

variable [Script.Parser]

theorem act_load (h : Persists P) (engine : Engine π) (read : String → Option String) (mail : Mail)
    (hP : P engine) : P (engine.act (.load read mail)) := by
  cases hqueue : engine.program.queue with
  | nil =>
    rw [act_load_nil read mail hqueue]
    exact hP
  | cons pending queue =>
    rw [act_load_cons read mail hqueue]
    exact h.load engine read mail pending queue hqueue hP

theorem perform_loads (h : Persists P) (engine : Engine π) (read : String → Option String)
    (mail : Mail) (count : Nat) (hP : P engine) :
    P (engine.perform (List.replicate count (.load read mail))) := by
  induction count generalizing engine with
  | zero => exact hP
  | succ count ih => exact ih _ (h.act_load engine read mail hP)

theorem analyze (h : Persists P) (engine : Engine π) (read : String → Option String) (mail : Mail)
    (hP : P engine) : P (engine.analyze read mail).2 := by
  rw [analyze_eq_perform, perform_append]
  exact h.look _ mail (h.perform_loads engine read mail engine.pending hP)

end Persists

namespace Endures

variable [Script.Parser]

theorem persists (h : Endures P) : Persists P := ⟨h.load, h.look⟩

theorem act (h : Endures P) (engine : Engine π) (action : Action) (hP : P engine) :
    P (engine.act action) := by
  cases action with
  | step step =>
    cases step with
    | addFile path text origin => exact h.addFile engine path text origin hP
    | updateFile path text => exact h.updateFile engine path text hP
    | analyze read mail => exact h.persists.analyze engine read mail hP
  | load read mail => exact h.persists.act_load engine read mail hP
  | look mail => exact h.look engine mail hP

/-- What every part keeps holds after any actions. -/
theorem perform (h : Endures P) {engine : Engine π} (actions : List Action) (hP : P engine) :
    P (engine.perform actions) := by
  induction actions generalizing engine with
  | nil => exact hP
  | cons first rest ih => exact ih (h.act engine first hP)

end Endures

end Engine

end Capabilities.Session
