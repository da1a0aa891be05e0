import Capabilities.Script.Name
import Capabilities.Types.Scope

/-!
# The state of an inference run

Inferring a file adds types and values to the store, fills the file's scopes and notes the value
of each expression. `Run` is that state; `Infer` is a step on it, which may be refused by the
store and then leaves the state as far as it came.

This module also holds the steps that touch no tree.
-/

namespace Capabilities.Inference

open Capabilities.Types

/-- What a run has made so far. `expressions` gives values to nodes, latest first; `functions`
    gives to the declarations met ahead of their bodies the types made for them. -/
structure Run where
  store : Store
  scopes : Scopes
  expressions : List (Nat × ValueId)
  functions : List (Nat × TypeId)

/-- A step of a run. -/
abbrev Infer := ExceptT StoreError (StateM Run)

/-- Where a step stands: in which file, in which scope, and in the body of a function with which
    result, if in any. -/
structure Place where
  file : String
  scope : ScopeId
  result : Option ValueId

/-! ### Steps on the store -/

def onStore {α : Type} (operation : Store → Except StoreError α × Store) : Infer α :=
  ExceptT.mk do
    let run ← get
    let (answer, store) := operation run.store
    set { run with store := store }
    return answer

def growing {α : Type} (operation : Store → α × Store) : Infer α :=
  onStore fun store => let (answer, store) := operation store; (.ok answer, store)

def store : Infer Store := do return (← get).store

def newValue : Infer ValueId := growing Store.newValue

def addType (value : ValueId) (type : TypeId) : Infer Unit := do
  let _ ← onStore (·.addType value type)

def propagate (source target : ValueId) : Infer Unit := onStore (·.propagate source target)

def valueOf (type : TypeId) : Infer ValueId := do
  let value ← newValue
  addType value type
  return value

def ensureMember (object : TypeId) (name : String) : Infer ValueId :=
  onStore (·.ensureMember object name)

/-! ### Steps on scopes and tables -/

def lookup? (place : Place) (name : String) : Infer (Option ValueId) := do
  return (← get).scopes.lookup? place.scope name

def declare (scope : ScopeId) (name : String) : Infer (Option ValueId) := do
  let run ← get
  let (value, scopes, store) := run.scopes.declare run.store scope name
  set { run with scopes := scopes, store := store }
  return value

def registerScope (id : ScopeId) (parent : Option ScopeId) : Infer Unit :=
  modify fun run => { run with scopes := run.scopes.register id parent }

def note (id : Nat) (value : ValueId) : Infer Unit :=
  modify fun run => { run with expressions := (id, value) :: run.expressions }

def remember (id : Nat) (type : TypeId) : Infer Unit :=
  modify fun run => { run with functions := (id, type) :: run.functions }

def remembered? (id : Nat) : Infer (Option TypeId) := do
  return (← get).functions.lookup id

/-- Let the types of a value flow into a variable, if there is one. -/
def flow (source : ValueId) (target : Option ValueId) : Infer Unit :=
  match target with
  | some target => propagate source target
  | none => return ()

/-- A type for a function, named and with parameters as its head says. A parameter without a name
    is shown as a question mark. -/
def functionType (place : Place) (node : Script.Node) : Infer TypeId :=
  growing (·.newFunction (node.nameOf? .name)
    (node.parameterNodes.map fun parameter => parameter.parameterName?.getD "?") (some place.file))

end Capabilities.Inference
