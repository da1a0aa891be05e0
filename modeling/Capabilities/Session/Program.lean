import Capabilities.Docs.Preceding
import Capabilities.Inference.File
import Capabilities.Script.Parser

/-!
# The files of a session

A `Program` is what a session has loaded and what it has yet to load: the shared type store, the
loaded files in load order, the queue, and the paths that could not be loaded. Plugins see the
program and may add files to its queue; a path is never loaded and queued at once.
-/

namespace Capabilities.Session

open Script Capabilities.Types Inference

/-! ### Files -/

structure SourceFile where
  name : String
  text : String
  root : Node
deriving Repr

def SourceFile.ofText [Parser] (name text : String) : SourceFile := ⟨name, text, parse text⟩

@[simp] theorem SourceFile.root_ofText [Parser] (name text : String) :
    (ofText name text).root = parse text := rfl

/-- A loaded file with what inference found out, and the file that asked for it. -/
structure LoadedFile where
  source : SourceFile
  inference : FileInference
  origin : Option String
deriving Repr

/-- A file to be loaded, with its text unless it is to be read from disk. -/
structure PendingFile where
  path : String
  text : Option String
  origin : Option String
deriving DecidableEq, Repr

/-- The files of a session and the store they share. `failed` are the paths that could not be
    loaded. -/
structure Program where
  store : Store
  files : Keyed LoadedFile
  queue : List PendingFile
  failed : List String
deriving Repr

namespace Program

def initial : Program := ⟨.initial, .empty, [], []⟩

instance : Inhabited Program := ⟨initial⟩

/-! ### Reading -/

def file? (program : Program) (name : String) : Option SourceFile :=
  (program.files.get? name).map LoadedFile.source

def fileNames (program : Program) : List String := program.files.keys

def isLoaded (program : Program) (path : String) : Bool := program.files.contains path

def isQueued (program : Program) (path : String) : Bool := program.queue.any (·.path == path)

def hasFailed (program : Program) (path : String) : Bool := program.failed.contains path

def queued (program : Program) : List String := program.queue.map PendingFile.path

def origin? (program : Program) (path : String) : Option String :=
  match program.files.get? path with
  | some loaded => loaded.origin
  | none => (program.queue.find? (·.path == path)).bind PendingFile.origin

def expression? (program : Program) (file : String) (id : Nat) : Option ValueId :=
  (program.files.get? file).bind (·.inference.expression? id)

def localValue? (program : Program) (file : String) (scope : ScopeId) (name : String) :
    Option ValueId :=
  (program.files.get? file).bind (·.inference.scopes.own? scope name)

def commentsBefore (program : Program) (file : String) (offset : Nat) : List String :=
  match program.file? file with
  | some source => Docs.commentsBefore source.root source.text offset
  | none => []

/-! ### Queueing -/

/-- Queue a file unless it is loaded or queued already, or has failed and comes without a text;
    whether it was queued. -/
def addFile (program : Program) (path : String) (text origin : Option String) : Bool × Program :=
  if program.isLoaded path || program.isQueued path then (false, program)
  else if text.isNone && program.hasFailed path then (false, program)
  else (true, { program with queue := program.queue ++ [⟨path, text, origin⟩] })

/-- Give a file a new text. It leaves the loaded files and goes to the end of the queue; a loaded
    file keeps its origin. -/
def updateFile (program : Program) (path text : String) : Program :=
  let origin := (program.files.get? path).bind LoadedFile.origin
  { program with
    files := program.files.erase path
    queue := program.queue.filter (·.path != path) ++ [⟨path, some text, origin⟩]
    failed := program.failed.filter (· != path) }

end Program

end Capabilities.Session
