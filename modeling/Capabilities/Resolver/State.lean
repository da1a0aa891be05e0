import Capabilities.Resolver.Diagnostic
import Capabilities.Resolver.Registry

/-!
# What the resolver remembers

Across files and passes the resolver keeps the registry, the stage and the binding of each file,
and the diagnostics. Each problem is reported once: a capability once in the whole session, any
other problem once for its file.
-/

namespace Capabilities.Resolver

open Capabilities.Types

/-! ### Sets of names -/

structure WarnedSet where
  names : List String
deriving DecidableEq, Repr

namespace WarnedSet

def empty : WarnedSet := ⟨[]⟩

def contains (set : WarnedSet) (name : String) : Bool := set.names.contains name

/-- Add a name; whether it is seen for the first time. -/
def first (set : WarnedSet) (name : String) : Bool × WarnedSet :=
  if set.contains name then (false, set) else (true, ⟨set.names ++ [name]⟩)

end WarnedSet

/-! ### Bindings -/

/-- What the imports of a consumer resolve to: each declared name with its type, if it has one. -/
structure ImportsBinding where
  file : String
  entries : Keyed (Option TypeId)
deriving DecidableEq, Repr

namespace ImportsBinding

def empty (file : String) : ImportsBinding := ⟨file, .empty⟩

def bind (binding : ImportsBinding) (name : String) (type : Option TypeId) : ImportsBinding :=
  { binding with entries := binding.entries.put name type }

def declared (binding : ImportsBinding) : List String := binding.entries.keys

def resolved (binding : ImportsBinding) : List String :=
  (binding.entries.entries.filter (·.2.isSome)).map Prod.fst

def unresolved (binding : ImportsBinding) : List String :=
  (binding.entries.entries.filter (·.2.isNone)).map Prod.fst

def type? (binding : ImportsBinding) (name : String) : Option TypeId :=
  (binding.entries.get? name).join

end ImportsBinding

/-! ### The state -/

inductive FileStage where
  | unparsed | parsed | bound
deriving DecidableEq, Repr

def FileStage.name : FileStage → String
  | .unparsed => "unparsed"
  | .parsed => "parsed"
  | .bound => "bound"

/-- Everything the resolver remembers. `currentOrigin` is the file being bound, which is the origin
    of the files scheduled for it. -/
structure State where
  registry : Registry
  currentOrigin : Option String
  warnedCapabilities : WarnedSet
  warnedFiles : WarnedSet
  tableReported : Bool
  stages : Keyed FileStage
  importsObjects : Keyed TypeId
  bindings : Keyed ImportsBinding
  diagnostics : List Diagnostic
deriving DecidableEq, Repr

namespace State

def initial : State :=
  ⟨.empty, none, .empty, .empty, false, .empty, .empty, .empty, []⟩

instance : Inhabited State := ⟨initial⟩

/-! ### Files -/

def stage (state : State) (file : String) : FileStage := (state.stages.get? file).getD .unparsed

def setStage (state : State) (file : String) (stage : FileStage) : State :=
  { state with stages := state.stages.put file stage }

/-- Forget what was derived from a file's text. -/
def resetFile (state : State) (file : String) : State :=
  { state with
    stages := state.stages.put file .unparsed
    importsObjects := state.importsObjects.erase file
    bindings := state.bindings.erase file }

def importsObject? (state : State) (file : String) : Option TypeId :=
  state.importsObjects.get? file

def setImportsObject (state : State) (file : String) (object : TypeId) : State :=
  { state with importsObjects := state.importsObjects.put file object }

def binding? (state : State) (file : String) : Option ImportsBinding := state.bindings.get? file

/-- Store a binding under its file, which is then bound. -/
def storeBinding (state : State) (binding : ImportsBinding) : State :=
  { state with
    stages := state.stages.put binding.file .bound
    bindings := state.bindings.put binding.file binding }

def register (state : State) (name : String) (type : TypeId) (origin : Option String) : State :=
  { state with registry := (state.registry.register name type origin).2 }

/-! ### Reports -/

def report (state : State) (file : Option String) (warning : Warning) : State :=
  { state with diagnostics := state.diagnostics ++ [.of file warning] }

def warnedAbout (state : State) (name : String) : Bool := state.warnedCapabilities.contains name

/-- Report a problem with a capability, unless one with it was reported before. -/
def warnCapability (state : State) (file : String) (warning : Warning) : State :=
  match warning.capability? with
  | none => state.report (some file) warning
  | some name =>
    let (isFirst, warned) := state.warnedCapabilities.first name
    let state := { state with warnedCapabilities := warned }
    if isFirst then state.report (some file) warning else state

/-- Report a problem with a file, unless the same was reported for it before. -/
def warnFile (state : State) (file : String) (warning : Warning) : State :=
  let (isFirst, warned) := state.warnedFiles.first (file ++ ": " ++ warning.message)
  let state := { state with warnedFiles := warned }
  if isFirst then state.report (some file) warning else state

def reportTableUnavailable (state : State) (file : String) : State :=
  if state.tableReported then state
  else { state with tableReported := true }.report (some file) .pathTableUnavailable

end State

end Capabilities.Resolver
