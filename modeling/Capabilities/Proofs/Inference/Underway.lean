import Capabilities.Proofs.Inference.File
import Capabilities.Proofs.Inference.Hoisting

/-!
# Runs under way

Whatever a store held before, a run on a file does in it what it does in a store of its own, and so
nothing it does is refused. A run is *under way* at a place if it is the twin of such a run, and the
place is one of it. That holds where a script begins, and of a function that is declared it holds
again where its body begins.
-/

namespace Capabilities.Inference

open Script Capabilities.Types

/-- A run is the twin of one in a store of its own, with its place. -/
def Underway (place : Place) (run : Run) : Prop :=
  ∃ shift base own inner, Run.Twin shift base place.file own run ∧
    Located.Within own.store inner ∧ place = Located.move shift inner

namespace Underway

variable {place : Place} {run : Run} {scope : ScopeId} {name : String} {value : ValueId}

/-- Steps that keep twins together are not refused, and the run is still under way. -/
theorem perform {step : Place → Infer Unit} (h : Underway place run)
    (hstep : ∀ shift base start (inner : Place), Located.Within start inner →
      (runTwins shift base place.file).Agree start (step inner)
        (step (Located.move shift inner)) fun _ _ => True) :
    ∃ next, (step place).run.run run = (.ok (), next) ∧ Underway place next := by
  obtain ⟨shift, base, own, inner, htwin, hwithin, hplace⟩ := h
  obtain ⟨_, next, later, -, hlater, htwin', hgrows, -⟩ :=
    hstep shift base own.store inner hwithin own run htwin (.refl _)
  rw [← hplace] at hlater
  exact ⟨later, hlater, shift, base, next, inner, htwin', Located.mono hgrows hwithin, hplace⟩

theorem hoist (h : Underway place run) (body : Node) :
    ∃ next, ((meaning body).hoist place).run.run run = (.ok (), next) ∧ Underway place next :=
  h.perform fun shift base start inner hwithin =>
    (meaning_steady shift base place.file body).hoist start inner hwithin

theorem walkParts (h : Underway place run) (body : Node) :
    ∃ next, ((meaning body).walkParts place).run.run run = (.ok (), next) ∧
      Underway place next :=
  h.perform fun shift base start inner hwithin =>
    (meaning_steady shift base place.file body).walkParts start inner hwithin

/-- A run under way has its variables in order. -/
theorem orderly (h : Underway place run) (hscope : (run.scopes.get? scope).isSome = true) :
    run.Orderly scope := by
  obtain ⟨shift, base, own, inner, htwin, -, -⟩ := h
  have hembeds := htwin.inside.embeds
  have hsound := htwin.inside.sound
  -- each variable is one of the own store, moved
  have hown : ∀ name value, run.scopes.own? scope name = some value →
      ∃ held, own.scopes.own? scope name = some held ∧ value = held.move shift := by
    intro name value hvalue
    rw [htwin.scopes, Scopes.own?_move] at hvalue
    obtain ⟨held, hheld, rfl⟩ := Option.map_eq_some_iff.1 hvalue
    exact ⟨held, hheld, rfl⟩
  have hlocals : ∀ name held, own.scopes.own? scope name = some held →
      own.locals place.file ⟨place.file, scope, name⟩ = some held := by
    intro name held hheld
    rw [Run.locals, if_pos rfl]
    exact hheld
  refine ⟨hscope, fun name value hvalue => ?_, fun name other value hvalue hother => ?_,
    fun name type htype => ?_⟩
  · obtain ⟨held, hheld, rfl⟩ := hown name value hvalue
    exact hembeds.lt_values (htwin.within_own? hheld)
  · obtain ⟨held, hheld, rfl⟩ := hown name value hvalue
    obtain ⟨second, hsecond, hsame⟩ := hown other _ hother
    obtain rfl := ValueId.move_injective shift hsame
    have hplaces := hsound.distinct (.ofVariable ⟨place.file, scope, name⟩)
      (.ofVariable ⟨place.file, scope, other⟩) held (hlocals name held hheld)
      (hlocals other held hsecond)
    cases hplaces
    rfl
  · cases hvalue : run.scopes.own? scope name with
    | none =>
      rw [Run.held_of_none hvalue] at htype
      cases htype
    | some value =>
      obtain ⟨held, hheld, rfl⟩ := hown name value hvalue
      rw [Run.held_of_own? hvalue, hembeds.typesOf] at htype
      obtain ⟨inner, hinner, rfl⟩ := List.mem_map.1 htype
      exact hembeds.lt_types (hsound.held held inner hinner)

/-- Where a script begins, its run is under way, and the program has its scope. -/
theorem begin {base : Store} (h : base.HasPrimitives) (file : String) (root : Node) :
    ∃ next, (registerScope root.id none).run.run ⟨base, .empty, [], []⟩ = (.ok (), next) ∧
      Underway ⟨file, root.id, none⟩ next ∧ (next.scopes.get? root.id).isSome = true := by
  obtain ⟨_, own, whole, -, hwhole, htwin, -, -⟩ :=
    agree_registerScope root.id none _ _ (Run.Twin.initial h file)
      (Store.Grows.refl Store.initial)
  refine ⟨whole, hwhole, ⟨h.frontier, base, own, ⟨file, root.id, none⟩, htwin, ?_, rfl⟩, ?_⟩
  · rintro value ⟨⟩
  · cases hwhole
    exact Scopes.isSome_get?_register _ _ _

end Underway

end Capabilities.Inference
