import Capabilities.Inference.Meaning

/-!
# Inferring a file

`inferFile` runs the meaning of a whole script: first what the program declares ahead, then its
statements. The result is the file's scopes and the values of its expressions; the types and
values themselves are in the store.
-/

namespace Capabilities.Inference

open Script Capabilities.Types

structure FileInference where
  scopes : Scopes
  expressions : List (Nat × ValueId)
deriving DecidableEq, Repr

def FileInference.empty : FileInference := ⟨.empty, []⟩

instance : Inhabited FileInference := ⟨.empty⟩

def FileInference.expression? (inference : FileInference) (id : Nat) : Option ValueId :=
  inference.expressions.lookup id

/-- The steps of a whole script. The program's scope is the root of the file's scopes. -/
def inferProgram (file : String) (root : Node) : Infer Unit := do
  registerScope root.id none
  let place : Place := ⟨file, root.id, none⟩
  (meaning root).hoist place
  (meaning root).walkParts place

def inferFile (file : String) (root : Node) (store : Store) :
    Except StoreError FileInference × Store :=
  let (outcome, run) := (inferProgram file root).run.run ⟨store, .empty, [], []⟩
  (outcome.map fun _ => ⟨run.scopes, run.expressions⟩, run.store)

end Capabilities.Inference
