import Capabilities.Proofs.Resolver.Provenance
import Capabilities.Proofs.Session.Actions
import Capabilities.Script.Parse

/-!
# Giving a file a new text

A file that is given a new text goes to the end of the queue, wherever it was before, and every
other file stays where it is and as it is. Besides its text a file has an origin. The origin of a
loaded file goes into the queue with it; a file that is not loaded comes without an origin, also if
it was waiting in the queue with one.
-/

namespace Capabilities.Session

namespace Program

variable {before after program : Program} {path text other : String}

/-! ### Where files are found afterwards -/

/-- No path is queued twice, and a path that was queued already moves. -/
theorem count_queued_updateFile (program : Program) (path text : String) :
    (program.updateFile path text).queued.count path = 1 := by
  have hmoved : (program.queued.filter (· != path)).count path = 0 := by
    apply List.count_eq_zero_of_not_mem
    simp
  rw [queued_updateFile, List.count_append, hmoved]
  simp

/-! ### The origin -/

theorem origin?_updateFile_self (program : Program) (path text : String) :
    (program.updateFile path text).origin? path =
      (program.files.get? path).bind LoadedFile.origin := by
  rw [origin?_eq, held?_updateFile, if_pos rfl]
  rfl

theorem origin?_updateFile_of_ne (program : Program) (text : String) (h : other ≠ path) :
    (program.updateFile path text).origin? other = program.origin? other := by
  rw [origin?_eq, held?_updateFile, if_neg h, origin?_eq]

theorem origin?_updateFile_of_loaded (text : String) (h : program.isLoaded path = true) :
    (program.updateFile path text).origin? path = program.origin? path := by
  obtain ⟨loaded, hloaded⟩ := isLoaded_iff.1 h
  rw [origin?_updateFile_self, origin?_eq, held?_of_get? hloaded, hloaded]
  rfl

theorem origin?_updateFile_of_unloaded (text : String) (h : program.isLoaded path = false) :
    (program.updateFile path text).origin? path = none := by
  rw [origin?_updateFile_self, get?_of_unloaded h]
  rfl

/-! ### The whole program -/

/-- A program before and after a path was given a new text. -/
structure Updated (path text : String) (before after : Program) : Prop where
  last : after.queue.getLast? = some ⟨path, some text, after.origin? path⟩
  once : after.queued.count path = 1
  unloaded : after.isLoaded path = false
  cleared : after.hasFailed path = false
  origin : after.origin? path = before.origin? path ↔
    before.isLoaded path = true ∨ before.origin? path = none
  lost : before.isLoaded path = false → after.origin? path = none
  files : after.fileNames = before.fileNames.filter (· != path)
  queue : after.queue.filter (·.path != path) = before.queue.filter (·.path != path)
  store : after.store = before.store
  others : ∀ other, other ≠ path →
    after.files.get? other = before.files.get? other ∧
    after.isQueued other = before.isQueued other ∧
    after.hasFailed other = before.hasFailed other ∧
    after.origin? other = before.origin? other

theorem updated_updateFile (program : Program) (path text : String) :
    program.Updated path text (program.updateFile path text) := by
  constructor
  case last =>
    rw [origin?_updateFile_self]
    exact List.getLast?_concat
  case once => exact count_queued_updateFile program path text
  case unloaded => simp [isLoaded_updateFile]
  case cleared => simp [hasFailed_updateFile]
  case origin =>
    cases hloaded : program.isLoaded path with
    | true => simp [origin?_updateFile_of_loaded text hloaded]
    | false =>
      rw [origin?_updateFile_of_unloaded text hloaded, eq_comm]
      simp
  case lost => exact origin?_updateFile_of_unloaded text
  case files => exact Keyed.keys_erase program.files path
  case queue => simp [updateFile, List.filter_append]
  case store => rfl
  case others =>
    intro other hother
    refine ⟨Keyed.get?_erase_of_ne _ hother, ?_, ?_, origin?_updateFile_of_ne program text hother⟩
    · simp [isQueued_updateFile, hother]
    · simp [hasFailed_updateFile, hother]

end Program

namespace Engine

variable {π : Type} [Plugin π]

/-- At every moment of a session, giving a path a new text queues it once, last and with this text,
    neither loaded nor failed any more, and leaves all other files alone, in their order. It keeps
    its origin if it is loaded; if it is not, it has none afterwards. -/
theorem updated_of_perform [Script.Parser] (plugins : List π) (actions : List Action)
    (path text : String) :
    let engine := (new plugins).perform actions
    engine.program.Updated path text (engine.step (.updateFile path text)).program :=
  Program.updated_updateFile _ path text

/-- A file that is waiting in the queue for the one that asked for it forgets who that was. -/
theorem origin_lost_in_queue :
    let engine := (new ([] : List Installed)).perform
      [.step (.addFile "/b.js" none (some "/a.js"))]
    engine.program.queue = [⟨"/b.js", none, some "/a.js"⟩] ∧
      engine.program.origin? "/b.js" = some "/a.js" ∧
      (engine.step (.updateFile "/b.js" "var b = 1;")).program.origin? "/b.js" = none := by
  decide +kernel

end Engine

end Capabilities.Session
