import Capabilities.Inference.File
import Capabilities.Proofs.Inference.Constructs
import Capabilities.Script.Parse

/-!
# What inference finds out does not depend on the store

Inferring a file into a sound store is never refused. What it finds out, and what it adds to the
store, is what inferring the file into the initial store finds and makes, with all ids moved behind
those that were there; and nothing that was there changes.
-/

namespace Capabilities.Inference

open Script Capabilities.Types

def FileInference.move (shift : Shift) (inference : FileInference) : FileInference :=
  ⟨inference.scopes.move shift,
    inference.expressions.map fun entry => (entry.1, entry.2.move shift)⟩

def FileInference.locals (inference : FileInference) (file : String) : Variables :=
  fun of => if of.file = file then inference.scopes.own? of.scope of.name else none

theorem FileInference.expression?_move (shift : Shift) (inference : FileInference) (id : Nat) :
    (inference.move shift).expression? id = (inference.expression? id).map (·.move shift) :=
  lookup_map (ValueId.move shift) inference.expressions id

theorem FileInference.own?_move (shift : Shift) (inference : FileInference) (scope : ScopeId)
    (name : String) :
    (inference.move shift).scopes.own? scope name =
      (inference.scopes.own? scope name).map (·.move shift) :=
  inference.scopes.own?_move shift scope name

theorem agree_inferProgram (shift : Shift) (base start : Store) (file : String) (root : Node) :
    (runTwins shift base file).Agree start (inferProgram file root) (inferProgram file root)
      fun _ _ => True := by
  have hplace : ∀ store, Located.Within store (⟨file, root.id, none⟩ : Place) := by
    intro store value hvalue
    cases hvalue
  refine Twins.Agree.bind (agree_registerScope root.id none) ?_
  intro registered _ _ _
  refine Twins.Agree.bind ((meaning_steady shift base file root).hoist registered _ (hplace _)) ?_
  intro hoisted _ _ _
  exact (meaning_steady shift base file root).walkParts hoisted _ (hplace _)

/-- The state of a run before its first step, and that of its twin. -/
theorem Run.Twin.initial {base : Store} (h : base.HasPrimitives) (file : String) :
    Run.Twin h.frontier base file ⟨.initial, .empty, [], []⟩ ⟨base, .empty, [], []⟩ := by
  have hvariables : Run.locals ⟨.initial, .empty, [], []⟩ file = fun _ => none := by
    funext of
    unfold Run.locals
    split <;> rfl
  refine ⟨⟨h.embeds_initial, ?_, ?_⟩, rfl, rfl, rfl, ?_, ?_⟩
  · rw [hvariables]
    exact Store.Sound.initial
  · intro value held hheld
    simp [Store.value?, Store.initial] at hheld
  · intro entry hentry
    cases hentry
  · intro entry hentry
    cases hentry

/-- What is made of a file on its own, found again in a store that holds other things: `inference`
    and `own` are what comes of it in the initial store, `whole` is what becomes of `base`. -/
structure Housed (shift : Shift) (base : Store) (file : String) (inference : FileInference)
    (own whole : Store) : Prop where
  inside : Store.Inside shift base (inference.locals file) own whole
  noted : ∀ id value, inference.expression? id = some value → Located.Within own value

/-- Inference is never refused, and does the same in every store with the primitives. -/
theorem inferFile_housed {base : Store} (h : base.HasPrimitives) (file : String) (root : Node) :
    ∃ inference own whole, inferFile file root .initial = (.ok inference, own) ∧
      inferFile file root base = (.ok (inference.move h.frontier), whole) ∧
      Housed h.frontier base file inference own whole := by
  obtain ⟨_, own, whole, hown, hwhole, htwin, -, -⟩ :=
    agree_inferProgram h.frontier base .initial file root _ _ (Run.Twin.initial h file) (.refl _)
  refine ⟨⟨own.scopes, own.expressions⟩, own.store, whole.store, ?_, ?_, htwin.inside, ?_⟩
  · unfold inferFile
    rw [hown]
    rfl
  · unfold inferFile
    rw [hwhole]
    change ((.ok ⟨whole.scopes, whole.expressions⟩ : Except StoreError FileInference),
      whole.store) = _
    rw [htwin.scopes, htwin.expressions]
    rfl
  · intro id value hvalue
    exact htwin.noted _ (mem_of_lookup hvalue)

theorem inferFile_sound {base : Store} {locals : Variables} (h : base.Sound locals)
    (file : String) (root : Node) :
    ∃ inference own whole, inferFile file root .initial = (.ok inference, own) ∧
      inferFile file root base = (.ok (inference.move h.frontier), whole) ∧
      Housed h.frontier base file inference own whole :=
  inferFile_housed h.primitive file root

/-- What a file adds to a store, and what is found out about it, is the same in every store with
    the primitives, up to the ids: those of its own begin where those of the store end. All that
    was in the store stays what it was. -/
theorem inferFile_followedBy (file : String) (root : Node) {base : Store}
    (h : base.HasPrimitives) :
    ∃ inference own, inferFile file root .initial = (.ok inference, own) ∧
      inferFile file root base =
        (.ok (inference.move h.frontier), Store.followedBy h.frontier base own) ∧
      (∀ type, type.index < base.types.size →
        (inferFile file root base).2.type? type = base.type? type) ∧
      ∀ value, value.index < base.values.size →
        (inferFile file root base).2.value? value = base.value? value := by
  obtain ⟨inference, own, whole, hown, hwhole, housed⟩ := inferFile_housed h file root
  have hembeds := housed.inside.embeds
  have hprimitives : own.HasPrimitives := housed.inside.sound.primitive
  rw [hwhole]
  refine ⟨inference, own, hown, ?_, hembeds.old_type, hembeds.old_value⟩
  rw [hembeds.eq_followedBy hprimitives]

/-- A store in which another file's function and its result stand already. -/
def crowded : Store := (Store.initial.newFunction (some "open") ["path"] (some "fs.js")).2

theorem crowded_hasPrimitives : crowded.HasPrimitives := by
  intro kind
  cases kind <;> rfl

/-- A script that makes objects and functions, calls one and writes a member of what it gives. -/
def pairScript : Node :=
  parse "function pair(a) { return { left: a, right: a } } var two = pair(1); two.left = 'x'"

theorem inferFile_crowded : crowded.HasPrimitives ∧
    (crowded.types.size, crowded.values.size) = (4, 1) ∧
    crowded.types.size < (inferFile "pair.js" pairScript crowded).2.types.size ∧
    ∃ inference own, inferFile "pair.js" pairScript .initial = (.ok inference, own) ∧
      inferFile "pair.js" pairScript crowded =
        (.ok (inference.move crowded_hasPrimitives.frontier),
          Store.followedBy crowded_hasPrimitives.frontier crowded own) ∧
      (∀ type, type.index < crowded.types.size →
        (inferFile "pair.js" pairScript crowded).2.type? type = crowded.type? type) ∧
      ∀ value, value.index < crowded.values.size →
        (inferFile "pair.js" pairScript crowded).2.value? value = crowded.value? value :=
  ⟨crowded_hasPrimitives, rfl, by decide +kernel,
    inferFile_followedBy "pair.js" pairScript crowded_hasPrimitives⟩

end Capabilities.Inference
