import Capabilities.Resolver.Scheduling

/-!
# Steps of resolving

`Resolve` is a step on `Work` that the store may refuse; a refused step leaves the work as far as
it came.
-/

namespace Capabilities.Resolver

open Capabilities.Types

/-- A step of resolving. -/
abbrev Resolve := ExceptT StoreError (StateM Work)

namespace Resolve

def store : Resolve Store := do return (← get).program.store

def state : Resolve State := do return (← get).state

def onStore {α : Type} (operation : Store → Except StoreError α × Store) : Resolve α :=
  ExceptT.mk do
    let work ← get
    let (answer, store) := operation work.program.store
    set { work with program := { work.program with store := store } }
    return answer

def growing {α : Type} (operation : Store → α × Store) : Resolve α :=
  onStore fun store => let (answer, store) := operation store; (.ok answer, store)

def remember (change : State → State) : Resolve Unit :=
  modify fun work => { work with state := change work.state }

def addType (value : ValueId) (type : TypeId) : Resolve Unit := do
  let _ ← onStore (·.addType value type)

def removeType (value : ValueId) (type : TypeId) : Resolve Unit := do
  let _ ← onStore (·.removeType value type)

/-- A step on its own: whether it was refused, and the work it leaves. -/
def runOn {α : Type} (step : Resolve α) (work : Work) : Except StoreError α × Work :=
  step.run.run work

end Resolve

end Capabilities.Resolver
