import Capabilities.Inference.Meaning
import Capabilities.Proofs.Script.Region
import Capabilities.Proofs.Steps
import Capabilities.Proofs.Types.Growth
import Capabilities.Proofs.Types.Scopes
import Mathlib.Order.Defs.PartialOrder

/-!
# What inference keeps

What is known of a run grows with it. A *world* is a run together with what is known of it, and a
later world knows at least as much. `Keeps` says that a step begun in any later world leads to a
later one yet; it has the rules of the steps' monad.

A `Discipline` lists all that the constructs of a script ask for: what is to be known of a node
before something is done with it, and what each step on the store, the scopes and the tables does
to a world. Whatever is disciplined in this way is kept by every construct, in whatever position
it stands.
-/

namespace Capabilities.Inference

open Script Capabilities.Types

variable {World : Type} [Preorder World] {α β : Type}

/-! ### Steps that are not refused -/

theorem eq_ok_of_bind {step : Infer α} {rest : α → Infer β} {run next : Run} {answer : β}
    (h : (step >>= rest).run.run run = (.ok answer, next)) :
    ∃ first middle, step.run.run run = (.ok first, middle) ∧
      (rest first).run.run middle = (.ok answer, next) := by
  cases houtcome : step.run.run run with
  | mk outcome middle =>
    cases outcome with
    | error error =>
      rw [run_bind_error houtcome] at h
      cases h
    | ok first =>
      rw [run_bind_ok houtcome] at h
      exact ⟨first, middle, rfl, h⟩

theorem eq_ok_of_onStore {operation : Store → Except StoreError α × Store} {run next : Run}
    {answer : α} (h : (onStore operation).run.run run = (.ok answer, next)) :
    ∃ store, operation run.store = (.ok answer, store) ∧ next = { run with store := store } := by
  have h' : ((operation run.store).1, { run with store := (operation run.store).2 }) =
      (.ok answer, next) := h
  cases houtcome : operation run.store with
  | mk outcome store =>
    rw [houtcome] at h'
    cases h'
    exact ⟨store, rfl, rfl⟩

/-- A value made for a type is new, and it holds the type alone. -/
theorem eq_ok_of_valueOf {run next : Run} {type : TypeId} {value : ValueId}
    (h : (valueOf type).run.run run = (.ok value, next)) :
    ∃ store, next = { run with store := store } ∧ value = run.store.newValue.1 ∧
      Store.Filled value [type] run.store.newValue.2 store ∧ store.typesOf value = [type] := by
  obtain ⟨found, made, hmade, h⟩ := eq_ok_of_bind h
  cases hmade
  obtain ⟨_, added, hadd, h⟩ := eq_ok_of_bind h
  cases h
  obtain ⟨fresh, after, hfresh, hadd⟩ := eq_ok_of_bind hadd
  cases hadd
  obtain ⟨store, hstore, rfl⟩ := eq_ok_of_onStore hfresh
  refine ⟨store, rfl, rfl, Store.filled_addType hstore, ?_⟩
  obtain ⟨-, held, hheld, rfl⟩ := Store.addType_ok hstore
  have hempty : held = .empty := by
    have hnew : run.store.newValue.2.value? run.store.newValue.1 = some held := hheld
    rw [Store.value?_newValue] at hnew
    simp only [Store.newValue, if_true] at hnew
    exact (Option.some.inj hnew).symm
  rw [Store.typesOf_modifyValue_self hheld, hempty]
  rfl

/-! ### The logic -/

/-- From every world later than `start`, a step that is not refused leads to a later one, and its
    answer is as `good` says there. -/
def Keeps (state : World → Run) (start : World) (step : Infer α) (good : World → α → Prop) :
    Prop :=
  ∀ world, start ≤ world → ∀ answer next, step.run.run (state world) = (.ok answer, next) →
    ∃ later, world ≤ later ∧ state later = next ∧ good later answer

namespace Keeps

variable {state : World → Run} {start later : World} {step : Infer α}
  {good weaker : World → α → Prop}
  {result : World → β → Prop}

theorem pure {answer : α} (h : ∀ world, start ≤ world → good world answer) :
    Keeps state start (Pure.pure answer) good := by
  intro world hworld found next hrun
  cases hrun
  exact ⟨world, le_refl world, rfl, h world hworld⟩

theorem done : Keeps state start (Pure.pure ()) fun _ _ => True := pure fun _ _ => trivial

theorem bind {next : α → Infer β} (h : Keeps state start step good)
    (hnext : ∀ world answer, start ≤ world → good world answer →
      Keeps state world (next answer) result) : Keeps state start (step >>= next) result := by
  intro world hworld answer last hrun
  obtain ⟨first, middle, hfirst, hrest⟩ := eq_ok_of_bind hrun
  obtain ⟨between, hbetween, rfl, hgood⟩ := h world hworld first middle hfirst
  obtain ⟨final, hfinal, hstate, hresult⟩ :=
    hnext between first (le_trans hworld hbetween) hgood between (le_refl _) answer last hrest
  exact ⟨final, le_trans hbetween hfinal, hstate, hresult⟩

/-- A step that changes nothing and answers what it sees. -/
theorem look {view : Run → α} {next : α → Infer β}
    (hview : ∀ run, step.run.run run = (.ok (view run), run))
    (hnext : ∀ world, start ≤ world → Keeps state world (next (view (state world))) result) :
    Keeps state start (step >>= next) result := by
  intro world hworld answer last hrun
  rw [run_bind_ok (hview (state world))] at hrun
  exact hnext world hworld world (le_refl _) answer last hrun

theorem mono (h : Keeps state start step good)
    (himp : ∀ world answer, start ≤ world → good world answer → weaker world answer) :
    Keeps state start step weaker := by
  intro world hworld answer next hrun
  obtain ⟨final, hfinal, hstate, hgood⟩ := h world hworld answer next hrun
  exact ⟨final, hfinal, hstate, himp final answer (le_trans hworld hfinal) hgood⟩

theorem trivial (h : Keeps state start step good) : Keeps state start step fun _ _ => True :=
  h.mono fun _ _ _ _ => True.intro

/-- A step of which the answer is thrown away. -/
theorem discard (h : Keeps state start step good) :
    Keeps state start (do let _ ← step) fun _ _ => True :=
  h.bind fun _ _ _ _ => done

theorem forM {ι : Type} {items : List ι} {each : ι → Infer Unit}
    (h : ∀ item ∈ items, ∀ world, start ≤ world →
      Keeps state world (each item) fun _ _ => True) :
    Keeps state start (items.forM each) fun _ _ => True := by
  induction items generalizing start with
  | nil => exact done
  | cons item rest ih =>
    refine bind (h item List.mem_cons_self start (le_refl _)) fun world _ hworld _ => ?_
    exact ih fun other hother later hlater =>
      h other (List.mem_cons_of_mem _ hother) later (le_trans hworld hlater)

theorem mapM {ι : Type} {items : List ι} {each : ι → Infer α}
    (h : ∀ item ∈ items, ∀ world, start ≤ world →
      Keeps state world (each item) fun _ _ => True) :
    Keeps state start (items.mapM each) fun _ _ => True := by
  induction items generalizing start with
  | nil => exact pure fun _ _ => True.intro
  | cons item rest ih =>
    rw [List.mapM_cons]
    refine bind (h item List.mem_cons_self start (le_refl _)) fun world _ hworld _ => ?_
    refine bind (ih fun other hother later hlater =>
      h other (List.mem_cons_of_mem _ hother) later (le_trans hworld hlater)) ?_
    exact fun _ _ _ _ => pure fun _ _ => True.intro

/-! ### Steps that touch no tree -/

theorem onStore {operation : Store → Except StoreError α × Store}
    (h : ∀ world, start ≤ world → ∀ answer next,
      operation (state world).store = (.ok answer, next) →
      ∃ later, world ≤ later ∧ state later = { state world with store := next } ∧
        good later answer) : Keeps state start (Inference.onStore operation) good := by
  intro world hworld answer next hrun
  obtain ⟨store, hstore, rfl⟩ := eq_ok_of_onStore hrun
  exact h world hworld answer store hstore

theorem growing {operation : Store → α × Store}
    (h : ∀ world, start ≤ world → ∃ later, world ≤ later ∧
      state later = { state world with store := (operation (state world).store).2 } ∧
      good later (operation (state world).store).1) :
    Keeps state start (Inference.growing operation) good := by
  refine onStore fun world hworld answer next hrun => ?_
  cases hrun
  exact h world hworld

theorem addType {value : ValueId} {type : TypeId}
    (h : ∀ world, start ≤ world → ∀ next, Store.Filled value [type] (state world).store next →
      ∃ later, world ≤ later ∧ state later = { state world with store := next }) :
    Keeps state start (Inference.addType value type) fun _ _ => True := by
  have hstep : Keeps state start (Inference.onStore (·.addType value type)) fun _ _ => True := by
    refine onStore fun world hworld _ next hrun => ?_
    obtain ⟨later, hlater, hstate⟩ := h world hworld next (Store.filled_addType hrun)
    exact ⟨later, hlater, hstate, True.intro⟩
  exact hstep.discard

theorem propagate {source target : ValueId}
    (h : ∀ world, start ≤ world → ∀ next,
      Store.Filled target ((state world).store.typesOf source) (state world).store next →
      ∃ later, world ≤ later ∧ state later = { state world with store := next }) :
    Keeps state start (Inference.propagate source target) fun _ _ => True := by
  refine onStore fun world hworld _ next hrun => ?_
  obtain ⟨later, hlater, hstate⟩ := h world hworld next (Store.filled_propagate hrun)
  exact ⟨later, hlater, hstate, True.intro⟩

theorem change {change : Run → Run}
    (h : ∀ world, start ≤ world → ∃ later, world ≤ later ∧ state later = change (state world)) :
    Keeps state start (modify change) fun _ _ => True := by
  intro world hworld answer next hrun
  cases hrun
  obtain ⟨later, hlater, hstate⟩ := h world hworld
  exact ⟨later, hlater, hstate, True.intro⟩

/-- Declaring a variable makes one only if the scope is there and has none of the name. -/
theorem declare {scope : ScopeId} {name : String} {good : World → Option ValueId → Prop}
    (hmissing : ∀ world, start ≤ world → good world none)
    (hpresent : ∀ world value, start ≤ world →
      (state world).scopes.own? scope name = some value → good world (some value))
    (habsent : ∀ world found, start ≤ world → (state world).scopes.get? scope = some found →
      (state world).scopes.own? scope name = none → ∃ later, world ≤ later ∧
        state later = { state world with
          scopes := (state world).scopes.withVariable scope name (state world).store.newValue.1
          store := (state world).store.newValue.2 } ∧
        good later (some (state world).store.newValue.1)) :
    Keeps state start (Inference.declare scope name) good := by
  intro world hworld answer next hrun
  have hrun' : (.ok ((state world).scopes.declare (state world).store scope name).1,
      { state world with
        scopes := ((state world).scopes.declare (state world).store scope name).2.1
        store := ((state world).scopes.declare (state world).store scope name).2.2 }) =
      (Except.ok answer, next) := hrun
  cases hscope : (state world).scopes.get? scope with
  | none =>
    rw [Scopes.declare_missing _ _ hscope] at hrun'
    cases hrun'
    exact ⟨world, le_refl _, rfl, hmissing world hworld⟩
  | some found =>
    cases hown : (state world).scopes.own? scope name with
    | some value =>
      rw [Scopes.declare_present _ hown] at hrun'
      cases hrun'
      exact ⟨world, le_refl _, rfl, hpresent world value hworld hown⟩
    | none =>
      rw [Scopes.declare_absent _ hscope hown] at hrun'
      cases hrun'
      exact habsent world found hworld hscope hown

end Keeps

/-- What is known in a world of nodes, values and types. -/
structure Knowledge (World : Type) [Preorder World] where
  /-- A node stands below a parent where what is done at a place is done. -/
  stands : World → Node → Node → Place → Prop
  /-- A name may be declared in a scope. -/
  declarable : ScopeId → String → Prop
  /-- Any types may flow into a value. -/
  target : World → ValueId → Prop
  /-- A type may be held by values, and members may be added to it. -/
  usable : World → TypeId → Prop
  /-- A type was made for a function. -/
  made : World → Node → TypeId → Prop
  /-- A value is the result of the type made for a function. -/
  result : World → Node → ValueId → Prop
  /-- A value is noted for a node. -/
  noted : World → Node → ValueId → Prop
  stands_mono : ∀ {world later parent node place}, world ≤ later →
    stands world parent node place → stands later parent node place
  target_mono : ∀ {world later value}, world ≤ later → target world value → target later value
  usable_mono : ∀ {world later type}, world ≤ later → usable world type → usable later type
  made_mono : ∀ {world later node type}, world ≤ later → made world node type →
    made later node type
  result_mono : ∀ {world later node value}, world ≤ later → result world node value →
    result later node value

def Place.inside (place : Place) (function : Node) : Place := { place with scope := function.id }

def Place.body (place : Place) (function : Node) (result : ValueId) : Place :=
  { place with scope := function.id, result := some result }

/-- The kinds of nodes that are not evaluated: functions that stand as statements, and methods. -/
def isStanding (kind : Kind) : Bool := kind.isFunctionDeclaration || kind == .methodDefinition

/-- What every step of inference does to a world. -/
structure Discipline (World : Type) [Preorder World] (state : World → Run) extends
    Knowledge World where
  -- where nodes stand
  below : ∀ {world parent node place}, stands world parent node place →
    Placed parent ∧ node ∈ parent.parts
  inner : ∀ {world parent node child place}, stands world parent node place →
    parent.keeps node = false → child ∈ node.parts → stands world node child place
  parameter : ∀ {world parent node child place role}, stands world parent node place →
    parent.keeps node = true → role = .parameter ∨ role = .parameters →
    node.part? role = some child → stands world node child (place.inside node)
  body : ∀ {world parent node child place value}, stands world parent node place →
    parent.keeps node = true → result world node value → node.part? .body = some child →
    stands world node child (place.body node value)
  -- what is declared
  ownName : ∀ {world parent node place name}, stands world parent node place →
    parent.keeps node = true → node.kind.isFunctionDeclaration = false →
    node.nameOf? .name = some name → declarable node.id name
  boundName : ∀ {world parent node child place name}, stands world parent node place →
    parent.keeps node = true → child ∈ node.parameterNodes →
    child.parameterName? = some name → declarable node.id name
  functionName : ∀ {world parent node place name}, stands world parent node place →
    node.kind.isFunctionDeclaration = true → node.nameOf? .name = some name →
    declarable place.scope name
  variableName : ∀ {world parent node place name}, stands world parent node place →
    node.kind = .variableDeclarator ∨ parent.kind = .variableDeclaration →
    node.nameOf? .name = some name → declarable place.scope name
  assignedName : ∀ {world parent node place scope}, stands world parent node place →
    parent.kind = .assignmentExpression → node.role = some .left → node.kind = .identifier →
    (state world).scopes.root = some scope → declarable scope node.lexeme
  declare : ∀ {world scope name}, declarable scope name →
    Keeps state world (Inference.declare scope name) fun later found =>
      ∀ value, found = some value → target later value
  lookup : ∀ {world scope name value}, (state world).scopes.lookup? scope name = some value →
    target world value
  registerScope : ∀ {world parent node place}, stands world parent node place →
    Keeps state world (Inference.registerScope node.id (some place.scope)) fun _ _ => True
  -- values and types
  newValue : ∀ {world}, Keeps state world Inference.newValue target
  addType : ∀ {world value type}, target world value → usable world type →
    Keeps state world (Inference.addType value type) fun _ _ => True
  propagate : ∀ {world source value}, target world value →
    Keeps state world (Inference.propagate source value) fun _ _ => True
  newObject : ∀ {world} (name origin : Option String),
    Keeps state world (growing (·.newObject name origin)) usable
  ensureMember : ∀ {world object} (name : String), usable world object →
    Keeps state world (Inference.ensureMember object name) target
  primitive : ∀ {world} (type : Primitive), usable world (Store.primitive type)
  held : ∀ {world value type}, type ∈ (state world).store.typesOf value → usable world type
  -- functions
  functionType : ∀ {world parent node place}, stands world parent node place →
    parent.keeps node = true →
    Keeps state world (Inference.functionType place node) fun later type => made later node type
  usable_of_made : ∀ {world node type}, made world node type → usable world type
  remember : ∀ {world node type}, made world node type →
    Keeps state world (Inference.remember node.id type) fun _ _ => True
  remembered : ∀ {world parent node place type}, stands world parent node place →
    (state world).functions.lookup node.id = some type → made world node type
  resultOf : ∀ {world node type}, made world node type →
    Keeps state world (Meaning.resultOf type) fun later value => result later node value
  answer : ∀ {world parent node place child value answered}, stands world parent node place →
    parent.keeps node = true → node.part? .body = some child → child.kind ≠ .statementBlock →
    noted world child answered → result world node value →
    Keeps state world (Inference.propagate answered value) fun _ _ => True
  return' : ∀ {world parent node place child answered}, stands world parent node place →
    node.kind = .returnStatement → node.parts.head? = some child → noted world child answered →
    Keeps state world (flow answered place.result) fun _ _ => True
  -- what is noted
  noteFunction : ∀ {world parent node place type}, stands world parent node place →
    parent.keeps node = true → made world node type →
    Keeps state world (do
      let value ← valueOf type
      note node.id value
      return value) fun later value => noted later node value
  noteTarget : ∀ {world parent node place} (value : ValueId), stands world parent node place →
    node.kind = .identifier → Keeps state world (note node.id value) fun _ _ => True
  noteValue : ∀ {world parent node place}, stands world parent node place →
    Keeps state world
      (Meaning.valueByKind node (node.children.map fun child => (child, meaning child)) place)
      (fun later value => node.kind.isFunction = true → noted later node value) →
    Keeps state world ((meaning node).evaluate place) fun later value => noted later node value

end Capabilities.Inference
