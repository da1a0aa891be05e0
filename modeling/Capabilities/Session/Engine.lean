import Capabilities.Host.Exchange
import Capabilities.Session.Program

/-!
# Loading files past plugins

An `Engine` is a program with plugins watching it. `Engine.analyze` loads everything queued, in
order: each file is read, announced to the plugins, inferred and announced again. When the queue
is empty every plugin takes a look at the whole program, once. Files queued during that last look
wait for the next call.
-/

namespace Capabilities.Session

open Host Script

/-! ### Plugins -/

/-- What a plugin does when the engine calls it. The host's letters can be read in every hook.
    `demand` bounds how many files the hooks of loading ever put into the queue. -/
class Plugin (π : Type) where
  /-- A file is about to be inferred. -/
  beforeLoad : Mail → String → π → Program → π × Program
  /-- A file has been inferred. -/
  afterLoad : Mail → String → π → Program → π × Program
  /-- Everything queued has been loaded. -/
  postInfer : Mail → π → Program → π × Program
  /-- How many files `beforeLoad` and `afterLoad` may still queue. -/
  demand : π → Nat

structure Engine (π : Type) where
  program : Program
  plugins : List π

/-- What one call of `analyze` did: the paths loaded and the paths that failed, in order, and how
    many wait for the next call. -/
structure AnalysisReport where
  loaded : List String
  failed : List String
  queued : Nat
deriving DecidableEq, Repr

namespace Engine

variable {π : Type}

def new (plugins : List π) : Engine π := ⟨.initial, plugins⟩

def dispatch (hook : π → Program → π × Program) (engine : Engine π) : Engine π :=
  let (plugins, program) := through engine.plugins engine.program
  ⟨program, plugins⟩
where
  through : List π → Program → List π × Program
    | [], program => ([], program)
    | plugin :: rest, program =>
      let (plugin, program) := hook plugin program
      let (rest, program) := through rest program
      (plugin :: rest, program)

variable [Parser] [Plugin π]

/-- Load one file; whether that succeeded. The text comes with the file or from disk. -/
def load (read : String → Option String) (mail : Mail) (pending : PendingFile)
    (engine : Engine π) : Bool × Engine π :=
  match pending.text.or (read pending.path) with
  | none => (false, engine)
  | some text =>
    let path := pending.path
    let source := SourceFile.ofText path text
    let files := engine.program.files.put path ⟨source, .empty, pending.origin⟩
    let engine := { engine with program := { engine.program with files := files } }
    let engine := engine.dispatch (Plugin.beforeLoad mail path)
    let (outcome, store) := Inference.inferFile path source.root engine.program.store
    let engine := { engine with program := { engine.program with store := store } }
    match outcome with
    | .error _ => (false, engine)
    | .ok inference =>
      let files := match engine.program.files.get? path with
        | some loaded => engine.program.files.put path { loaded with inference := inference }
        | none => engine.program.files
      let engine := { engine with program := { engine.program with files := files } }
      (true, engine.dispatch (Plugin.afterLoad mail path))

/-- Load the queue until it is empty, at most `steps` files; the paths loaded and those that
    failed. -/
def drain (read : String → Option String) (mail : Mail) :
    Nat → Engine π → List String × List String × Engine π
  | 0, engine => ([], [], engine)
  | steps + 1, engine =>
    match engine.program.queue with
    | [] => ([], [], engine)
    | pending :: queue =>
      let engine := { engine with program := { engine.program with queue := queue } }
      let (succeeded, engine) := engine.load read mail pending
      let path := pending.path
      let known := engine.program.failed.filter (· != path)
      let failed := if succeeded then known else known ++ [path]
      let engine := { engine with program := { engine.program with failed := failed } }
      let (loaded, failed, engine) := engine.drain read mail steps
      if succeeded then (path :: loaded, failed, engine) else (loaded, path :: failed, engine)

/-- How many files a drain can meet: those queued, and those the plugins may queue meanwhile. -/
def pending (engine : Engine π) : Nat :=
  engine.plugins.foldl (fun total plugin => total + Plugin.demand plugin)
    engine.program.queue.length

/-- Load everything queued, then let every plugin look at the program once. -/
def analyze (read : String → Option String) (mail : Mail) (engine : Engine π) :
    AnalysisReport × Engine π :=
  let (loaded, failed, engine) := engine.drain read mail engine.pending
  let engine := engine.dispatch (Plugin.postInfer mail)
  (⟨loaded, failed, engine.program.queue.length⟩, engine)

end Engine

end Capabilities.Session
