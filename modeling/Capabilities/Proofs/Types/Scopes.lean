import Capabilities.Proofs.Types.Embedding
import Capabilities.Types.Scope

/-!
# Scopes with moved ids

Moving the ids of all variables commutes with every look-up and with registering a scope.
Declaring a variable changes what one scope says about one name.
-/

namespace Capabilities.Types

variable (shift : Shift)

def Scope.move (scope : Scope) : Scope :=
  { scope with declared := scope.declared.map (·.move shift) }

def Scopes.move (scopes : Scopes) : Scopes :=
  { scopes with all := scopes.all.map (·.move shift) }

namespace Scopes

theorem get?_move (scopes : Scopes) (id : ScopeId) :
    (scopes.move shift).get? id = (scopes.get? id).map (·.move shift) := by
  unfold Scopes.get? Scopes.move
  rw [List.find?_map]
  rfl

theorem own?_move (scopes : Scopes) (id : ScopeId) (name : String) :
    (scopes.move shift).own? id name = (scopes.own? id name).map (·.move shift) := by
  unfold Scopes.own?
  rw [get?_move]
  cases scopes.get? id with
  | none => rfl
  | some scope => simp [Scope.move]

theorem lookupWithin_move (scopes : Scopes) (steps : Nat) (id : ScopeId) (name : String) :
    (scopes.move shift).lookupWithin steps id name =
      (scopes.lookupWithin steps id name).map (·.move shift) := by
  induction steps generalizing id with
  | zero => rfl
  | succ steps ih =>
    unfold Scopes.lookupWithin
    rw [get?_move]
    cases scopes.get? id with
    | none => rfl
    | some scope =>
      simp only [Option.map_some, Scope.move, Keyed.get?_map]
      cases scope.declared.get? name with
      | some value => rfl
      | none =>
        cases scope.parent with
        | none => rfl
        | some parent => exact ih parent

theorem lookup?_move (scopes : Scopes) (id : ScopeId) (name : String) :
    (scopes.move shift).lookup? id name = (scopes.lookup? id name).map (·.move shift) := by
  unfold Scopes.lookup?
  rw [lookupWithin_move]
  simp [Scopes.move]

theorem register_move (scopes : Scopes) (id : ScopeId) (parent : Option ScopeId) :
    (scopes.register id parent).move shift = (scopes.move shift).register id parent := by
  unfold Scopes.register
  rw [get?_move, Option.isSome_map]
  unfold Scopes.move
  split <;> simp [Scope.move]

/-- A name that is found is declared by some scope. -/
theorem exists_own?_of_lookupWithin {scopes : Scopes} {steps : Nat} {id : ScopeId} {name : String}
    {value : ValueId} (h : scopes.lookupWithin steps id name = some value) :
    ∃ owner, scopes.own? owner name = some value := by
  induction steps generalizing id with
  | zero => cases h
  | succ steps ih =>
    unfold Scopes.lookupWithin at h
    cases hs : scopes.get? id with
    | none => simp [hs] at h
    | some scope =>
      simp only [hs] at h
      cases hd : scope.declared.get? name with
      | some found =>
        simp only [hd, Option.some.injEq] at h
        exact ⟨id, by simp [own?, hs, hd, h]⟩
      | none =>
        simp only [hd] at h
        cases hp : scope.parent with
        | none => simp [hp] at h
        | some parent =>
          simp only [hp] at h
          exact ih h

theorem own?_register (scopes : Scopes) (id : ScopeId) (parent : Option ScopeId)
    (owner : ScopeId) (name : String) :
    (scopes.register id parent).own? owner name = scopes.own? owner name := by
  unfold Scopes.own? Scopes.get? Scopes.register
  simp only
  split
  · rfl
  · rename_i hnone
    rw [List.find?_append]
    cases h : scopes.all.find? (·.id == owner) with
    | some scope => rfl
    | none =>
      simp only [Option.none_or, List.find?_singleton]
      split <;> rfl

/-! ### Declaring -/

def withVariable (scopes : Scopes) (id : ScopeId) (name : String) (value : ValueId) : Scopes :=
  { scopes with all := scopes.all.map fun scope =>
      if scope.id == id then { scope with declared := scope.declared.put name value } else scope }

theorem declare_missing {scopes : Scopes} {id : ScopeId} (store : Store) (name : String)
    (hscope : scopes.get? id = none) : scopes.declare store id name = (none, scopes, store) := by
  unfold declare
  rw [hscope]

theorem declare_present {scopes : Scopes} {id : ScopeId} {name : String} {value : ValueId}
    (store : Store) (hvalue : scopes.own? id name = some value) :
    scopes.declare store id name = (some value, scopes, store) := by
  unfold declare
  unfold own? at hvalue
  cases hscope : scopes.get? id with
  | none => simp [hscope] at hvalue
  | some scope =>
    simp only [hscope, Option.bind_some] at hvalue
    simp only [hvalue]

theorem declare_absent {scopes : Scopes} {id : ScopeId} {scope : Scope} {name : String}
    (store : Store) (hscope : scopes.get? id = some scope) (hnone : scopes.own? id name = none) :
    scopes.declare store id name =
      (some store.newValue.1, scopes.withVariable id name store.newValue.1, store.newValue.2) := by
  unfold declare
  unfold own? at hnone
  simp only [hscope, Option.bind_some] at hnone
  simp only [hscope, hnone]
  rfl

theorem withVariable_move (scopes : Scopes) (id : ScopeId) (name : String) (value : ValueId) :
    (scopes.withVariable id name value).move shift =
      (scopes.move shift).withVariable id name (value.move shift) := by
  unfold withVariable Scopes.move
  simp only [List.map_map, Scopes.mk.injEq, and_true]
  congr 1
  funext scope
  by_cases h : (scope.id == id) = true
  · simp only [Function.comp, Scope.move, h, if_true, Keyed.map_put]
  · simp only [Function.comp, Scope.move, h]
    rfl

/-- Only the scope and the name given are affected. -/
theorem own?_withVariable {scopes : Scopes} {id : ScopeId} {scope : Scope} (name : String)
    (value : ValueId) (hscope : scopes.get? id = some scope) (owner : ScopeId) (other : String) :
    (scopes.withVariable id name value).own? owner other =
      if owner = id ∧ other = name then some value else scopes.own? owner other := by
  unfold own? get? withVariable
  have hfind : (scopes.all.map fun scope =>
      if scope.id == id then { scope with declared := scope.declared.put name value }
      else scope).find? (·.id == owner) =
      (scopes.all.find? (·.id == owner)).map fun scope =>
        if scope.id == id then { scope with declared := scope.declared.put name value }
        else scope := by
    rw [List.find?_map]
    congr 2
    funext scope
    simp only [Function.comp]
    split <;> rfl
  simp only [hfind]
  by_cases howner : owner = id
  · subst howner
    unfold Scopes.get? at hscope
    have hid := List.find?_some hscope
    simp only [hscope, Option.map_some, Option.bind_some, hid, if_true, Keyed.get?_put, true_and]
  · rw [if_neg (fun h => howner h.1)]
    cases hfound : scopes.all.find? (·.id == owner) with
    | none => rfl
    | some found =>
      have hid := List.find?_some hfound
      have hne : ¬(found.id == id) = true := by
        intro heq
        exact howner ((beq_iff_eq.1 hid).symm.trans (beq_iff_eq.1 heq))
      simp only [Option.map_some, Option.bind_some, hne]
      rfl

end Scopes

end Capabilities.Types
