import Capabilities.Types.Store

/-!
# Scopes

A file's variables live in scopes: one for the program and one for each function. A scope is known
by the identity of the node that makes it. Looking a name up searches a scope and then the scopes
around it.
-/

namespace Capabilities.Types

/-- The identity of the node that makes a scope. -/
abbrev ScopeId := Nat

/-- The variables declared by one function or by the program, in order of declaration. -/
structure Scope where
  id : ScopeId
  parent : Option ScopeId
  declared : Keyed ValueId
deriving DecidableEq, Repr

/-- The scopes of a file, each id at most once, and the program's own. -/
structure Scopes where
  all : List Scope
  root : Option ScopeId
deriving DecidableEq, Repr

namespace Scopes

def empty : Scopes := ⟨[], none⟩

instance : Inhabited Scopes := ⟨empty⟩

def get? (scopes : Scopes) (id : ScopeId) : Option Scope := scopes.all.find? (·.id == id)

/-- Register a scope. One that is registered already stays as it is. The first scope registered
    without a parent is the root. -/
def register (scopes : Scopes) (id : ScopeId) (parent : Option ScopeId) : Scopes :=
  { root := if parent.isNone && scopes.root.isNone then some id else scopes.root
    all := if (scopes.get? id).isSome then scopes.all else scopes.all ++ [⟨id, parent, .empty⟩] }

def own? (scopes : Scopes) (id : ScopeId) (name : String) : Option ValueId :=
  (scopes.get? id).bind (·.declared.get? name)

/-- Look a name up in a scope and in the scopes around it, at most `steps` of them. -/
def lookupWithin (scopes : Scopes) : Nat → ScopeId → String → Option ValueId
  | 0, _, _ => none
  | steps + 1, id, name =>
    match scopes.get? id with
    | none => none
    | some scope =>
      match scope.declared.get? name with
      | some value => some value
      | none =>
        match scope.parent with
        | some parent => scopes.lookupWithin steps parent name
        | none => none

/-- Look a name up in a scope and in the scopes around it. Parents are registered before their
    children, so no chain has more scopes than there are. -/
def lookup? (scopes : Scopes) (id : ScopeId) (name : String) : Option ValueId :=
  scopes.lookupWithin scopes.all.length id name

/-- Declare a variable in a scope, keeping one that is declared already. There is none if there
    is no such scope. -/
def declare (scopes : Scopes) (store : Store) (id : ScopeId) (name : String) :
    Option ValueId × Scopes × Store :=
  match scopes.get? id with
  | none => (none, scopes, store)
  | some scope =>
    match scope.declared.get? name with
    | some value => (some value, scopes, store)
    | none =>
      let (value, store) := store.newValue
      let all := scopes.all.map fun scope =>
        if scope.id == id then { scope with declared := scope.declared.put name value } else scope
      (some value, { scopes with all := all }, store)

end Scopes

end Capabilities.Types
