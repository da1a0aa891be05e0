import Capabilities.Proofs.Inference.Course
import Capabilities.Proofs.Inference.Disciplined

/-!
# Every construct follows its course

A run of a construct, in whatever position it stands, does the acts of its course one after the
other, and leaves scopes and notes alone otherwise. By induction on the tree every node does so,
if its parts do.
-/

namespace Capabilities.Inference

open Script Capabilities.Types

variable {α β : Type} {run next : Run} {node child : Node} {place : Place} {spot : Spot}
  {role : Role} {acts more : List Act}

/-! ### The logic -/

/-- A step that is not refused does the acts, and its answer is `good`. -/
def Follows (run : Run) (step : Infer α) (acts : List Act) (good : Run → α → Prop) : Prop :=
  ∀ answer next, step.run.run run = (.ok answer, next) → Performed run acts next ∧ good next answer

namespace Follows

variable {step : Infer α} {rest : α → Infer β} {good weaker : Run → α → Prop}
  {result : Run → β → Prop}

theorem pure {answer : α} (h : good run answer) : Follows run (Pure.pure answer) [] good := by
  intro found next hrun
  cases hrun
  exact ⟨.nil (.refl run), h⟩

theorem done : Follows run (Pure.pure ()) [] fun _ _ => True := pure trivial

theorem bind (h : Follows run step acts good)
    (hrest : ∀ middle answer, Performed run acts middle → good middle answer →
      Follows middle (rest answer) more result) :
    Follows run (step >>= rest) (acts ++ more) result := by
  intro answer last hrun
  obtain ⟨first, middle, hfirst, hsecond⟩ := eq_ok_of_bind hrun
  obtain ⟨hperformed, hgood⟩ := h first middle hfirst
  obtain ⟨hmore, hresult⟩ := hrest middle first hperformed hgood answer last hsecond
  exact ⟨hperformed.append hmore, hresult⟩

/-- A step after which nothing is done but what is quiet. -/
theorem before (h : Follows run step acts good)
    (hrest : ∀ middle answer, Performed run acts middle → good middle answer →
      Follows middle (rest answer) [] result) : Follows run (step >>= rest) acts result := by
  have hbind := h.bind hrest
  rwa [List.append_nil] at hbind

/-- A step before which nothing was done but what is quiet. -/
theorem after (h : Follows run step [] good)
    (hrest : ∀ middle answer, Performed run [] middle → good middle answer →
      Follows middle (rest answer) acts result) : Follows run (step >>= rest) acts result :=
  h.bind hrest

theorem mono (h : Follows run step acts good)
    (himp : ∀ next answer, good next answer → weaker next answer) :
    Follows run step acts weaker :=
  fun answer next hrun => (h answer next hrun).imp_right (himp next answer)

theorem trivial (h : Follows run step acts good) : Follows run step acts fun _ _ => True :=
  h.mono fun _ _ _ => True.intro

theorem discard (h : Follows run step acts good) :
    Follows run (do let _ ← step) acts fun _ _ => True :=
  h.before fun _ _ _ _ => done

/-- A step that changes nothing and answers what it sees. -/
theorem look {view : Run → α} (hview : ∀ run, step.run.run run = (.ok (view run), run))
    (hrest : Follows run (rest (view run)) acts result) :
    Follows run (step >>= rest) acts result := by
  intro answer last hrun
  rw [run_bind_ok (hview run)] at hrun
  exact hrest answer last hrun

theorem quiet (h : ∀ answer next, step.run.run run = (.ok answer, next) → Quiet run next) :
    Follows run step [] fun _ _ => True :=
  fun answer next hrun => ⟨.nil (h answer next hrun), True.intro⟩

/-- Steps for the items of a list, of which each keeps what holds before it. -/
theorem forM {ι : Type} {items : List ι} {each : ι → Infer Unit} {acts : ι → List Act}
    (holds : Run → Prop) (hlasts : ∀ run next, holds run → run.Lasts next → holds next)
    (h : ∀ item ∈ items, ∀ run, holds run → Follows run (each item) (acts item) fun _ _ => True)
    (hrun : holds run) : Follows run (items.forM each) (items.flatMap acts) fun _ _ => True := by
  induction items generalizing run with
  | nil => exact done
  | cons item items ih =>
    rw [List.flatMap_cons]
    refine bind (h item List.mem_cons_self run hrun) fun middle _ hperformed _ => ?_
    exact ih (fun other hother => h other (List.mem_cons_of_mem _ hother))
      (hlasts run middle hrun hperformed.lasts)

theorem mapM {ι : Type} {items : List ι} {each : ι → Infer α} {acts : ι → List Act}
    (holds : Run → Prop) (hlasts : ∀ run next, holds run → run.Lasts next → holds next)
    (h : ∀ item ∈ items, ∀ run, holds run → Follows run (each item) (acts item) fun _ _ => True)
    (hrun : holds run) : Follows run (items.mapM each) (items.flatMap acts) fun _ _ => True := by
  induction items generalizing run with
  | nil => exact pure True.intro
  | cons item items ih =>
    rw [List.flatMap_cons, List.mapM_cons]
    refine bind (h item List.mem_cons_self run hrun) fun middle _ hperformed _ => ?_
    refine before (ih (fun other hother => h other (List.mem_cons_of_mem _ hother))
      (hlasts run middle hrun hperformed.lasts)) fun _ _ _ _ => ?_
    exact pure True.intro

/-- Quiet steps for the items of a list. -/
theorem forM_quiet {ι : Type} {items : List ι} {each : ι → Infer Unit}
    (h : ∀ item run, Follows run (each item) [] fun _ _ => True) :
    Follows run (items.forM each) [] fun _ _ => True := by
  have hall : Follows run (items.forM each) (items.flatMap fun _ => []) fun _ _ => True :=
    forM (fun _ => True) (fun _ _ _ _ => True.intro) (fun item _ run _ => h item run) True.intro
  rwa [List.flatMap_eq_nil_iff.2 fun _ _ => rfl] at hall

/-! ### Steps that touch no tree -/

theorem onStore {operation : Store → Except StoreError α × Store}
    (h : ∀ answer store, operation run.store = (.ok answer, store) → run.store.Advances store) :
    Follows run (Inference.onStore operation) [] fun _ _ => True := by
  refine quiet fun answer next hrun => ?_
  obtain ⟨store, hstore, rfl⟩ := eq_ok_of_onStore hrun
  exact ⟨rfl, rfl, h answer store hstore⟩

theorem growing {operation : Store → α × Store}
    (h : Store.Change (fun _ _ => False) run.store (operation run.store).2) :
    Follows run (Inference.growing operation) [] fun _ _ => True := by
  refine onStore fun answer store hstore => ?_
  cases hstore
  exact h.advances

theorem newValue (run : Run) : Follows run Inference.newValue [] fun _ _ => True :=
  growing .value

theorem addType (run : Run) (value : ValueId) (type : TypeId) :
    Follows run (Inference.addType value type) [] fun _ _ => True :=
  discard (onStore fun _ _ hstore => (Store.filled_addType hstore).changes.advances)

theorem propagate (run : Run) (source target : ValueId) :
    Follows run (Inference.propagate source target) [] fun _ _ => True :=
  onStore fun _ _ hstore => (Store.filled_propagate hstore).changes.advances

theorem flow (run : Run) (source : ValueId) (target : Option ValueId) :
    Follows run (Inference.flow source target) [] fun _ _ => True := by
  cases target with
  | none => exact done
  | some target => exact propagate run source target

theorem valueOf (run : Run) (type : TypeId) :
    Follows run (Inference.valueOf type) [] fun _ _ => True :=
  bind (newValue run) fun middle value _ _ =>
    bind (addType middle value type) fun _ _ _ _ => pure True.intro

theorem newInstance (run : Run) (name origin : Option String) :
    Follows run (Inference.growing (·.newObject name origin) >>= Inference.valueOf) []
      fun _ _ => True :=
  bind (growing (.object name origin)) fun middle type _ _ => valueOf middle type

theorem functionType (run : Run) (place : Place) (node : Node) :
    Follows run (Inference.functionType place node) [] fun _ _ => True :=
  growing (.function _ _ _)

theorem remember (run : Run) (id : Nat) (type : TypeId) :
    Follows run (Inference.remember id type) [] fun _ _ => True := by
  refine quiet fun answer next hrun => ?_
  cases hrun
  exact ⟨rfl, rfl, .refl _⟩

theorem ensureMember (run : Run) (object : TypeId) (name : String) :
    Follows run (Inference.ensureMember object name) [] fun _ _ => True := by
  refine onStore fun member store hstore => ?_
  obtain ⟨found, hobject, ⟨-, rfl⟩ | ⟨hname, -, rfl⟩⟩ := Store.ensureMember_ok hstore
  · exact .refl _
  · exact (Store.Change.member hobject hname).advances

theorem fillMember (run : Run) (object : TypeId) (name : String) (source : ValueId) :
    Follows run (Meaning.fillMember object name source) [] fun _ _ => True :=
  bind (ensureMember run object name) fun middle member _ _ => propagate middle source member

theorem note (run : Run) (id : Nat) (value : ValueId) :
    Follows run (Inference.note id value) [.notes id]
      fun next _ => next.expressions.head? = some (id, value) := by
  intro answer next hrun
  cases hrun
  exact ⟨.single (.notes value), rfl⟩

theorem registerScope {parent : ScopeId} (id : ScopeId)
    (h : (run.scopes.get? parent).isSome = true) :
    Follows run (Inference.registerScope id (some parent)) [.opens id parent]
      fun _ _ => True := by
  intro answer next hrun
  cases hrun
  exact ⟨.single (.opens h), True.intro⟩

/-- Declaring a name in a scope that is registered. -/
theorem declare {scope : ScopeId} (name : String) (h : (run.scopes.get? scope).isSome = true) :
    Follows run (Inference.declare scope name) [.declares scope name] fun _ _ => True := by
  intro answer next hrun
  refine ⟨.single ?_, True.intro⟩
  rcases eq_ok_of_declare hrun with ⟨hmissing, -, -⟩ | ⟨-, hsome, -⟩ | ⟨-, -, rfl, -⟩
  · rw [hmissing] at h
    cases h
  · obtain ⟨value, rfl⟩ := Option.isSome_iff_exists.1 hsome
    exact .declares hrun
  · exact .declares hrun

end Follows

/-! ### Meanings that follow a course -/

/-- A place is where a spot is, and what is known there holds of the run. -/
structure Stands (place : Place) (spot : Spot) (run : Run) : Prop where
  scope : place.scope = spot.scope
  known : spot.Known run.scopes

theorem Stands.mono (h : Stands place spot run) (hlasts : run.Lasts next) :
    Stands place spot next :=
  ⟨h.scope, h.known.mono hlasts⟩

theorem Stands.later (h : Stands place spot run) (hperformed : Performed run acts next) :
    Stands place spot next :=
  h.mono hperformed.lasts

theorem Stands.registered (h : Stands place spot run) :
    (run.scopes.get? place.scope).isSome = true :=
  h.scope ▸ h.known.scope

/-- What one meaning does follows a course, in every position. -/
structure Meaning.Performs (node : Node) (course : Course) (meaning : Meaning) : Prop where
  hoist : ∀ run place spot, Stands place spot run →
    Follows run (meaning.hoist place) (course .hoist spot) fun _ _ => True
  walkParts : ∀ run place spot, Stands place spot run →
    Follows run (meaning.walkParts place) (course .walkParts spot) fun _ _ => True
  walk : ∀ run place spot, Stands place spot run →
    Follows run (meaning.walk place) (course .walk spot) fun _ _ => True
  evaluate : ∀ run place spot, Stands place spot run →
    Follows run (meaning.evaluate place) (course .evaluate spot)
      fun next value => next.expressions.head? = some (node.id, value)
  declare : ∀ run place spot, Stands place spot run →
    Follows run (meaning.declare place) (course .declare spot) fun _ _ => True
  addTo : ∀ run place spot object, Stands place spot run →
    Follows run (meaning.addTo object place) (course .addTo spot) fun _ _ => True
  bind : ∀ run place spot, Stands place spot run →
    Follows run (meaning.bind place) (course .bind spot) fun _ _ => True
  bindParts : ∀ run place spot, Stands place spot run →
    Follows run (meaning.bindParts place) (course .bindParts spot) fun _ _ => True
  receive : ∀ run place spot source right, Stands place spot run →
    (∀ node ∈ source, run.expressions.head? = some (node.id, right)) →
    Follows run (meaning.receive right place) (course (.receive source) spot) fun _ _ => True

namespace Course

abbrev family (node : Node) : Children := node.children.map fun child => (child, course child)

theorem find?_family (node : Node) (role : Role) :
    (family node).find? (·.1.role == some role) =
      (node.part? role).map fun child => (child, course child) := by
  unfold family Node.part?
  rw [List.find?_map]
  rfl

theorem filter_family (node : Node) :
    (family node).filter (!·.1.isComment) = node.parts.map fun child => (child, course child) := by
  unfold family Node.parts
  rw [List.filter_map]
  rfl

theorem part_of_none (position : Position) (spot : Spot) (h : node.part? role = none) :
    part (family node) position spot role = [] := by
  unfold part
  rw [find?_family, h]
  rfl

theorem part_of_some (position : Position) (spot : Spot) (h : node.part? role = some child) :
    part (family node) position spot role = course child position spot := by
  unfold part
  rw [find?_family, h]
  rfl

theorem each_family (node : Node) (position : Position) (spot : Spot) :
    each (family node) position spot = node.parts.flatMap (course · position spot) := by
  unfold each
  rw [filter_family, List.flatMap_map]

end Course

namespace Meaning

open Course (part_of_none part_of_some each_family find?_family filter_family)

/-- All children of a node follow their courses. -/
def Guided (node : Node) : Prop :=
  ∀ child ∈ node.children, (meaning child).Performs child (course child)

theorem Guided.of_mem (h : Guided node) (hchild : child ∈ node.parts) :
    (meaning child).Performs child (course child) :=
  h child (Node.mem_children_of_mem_parts hchild)

theorem Guided.of_part? (h : Guided node) (hchild : node.part? role = some child) :
    (meaning child).Performs child (course child) :=
  h child (Node.mem_children_of_part? hchild)

/-! ### Declaring ahead -/

theorem follows_hoistFunction (h : Stands place spot run) (child : Node) :
    Follows run (hoistFunction place child) (Course.declaring spot (child.nameOf? .name))
      fun _ _ => True := by
  refine .after (.functionType run place child) fun typed type htyped _ => ?_
  refine .after (.remember typed child.id type) fun noted _ hnoted _ => ?_
  have h := (h.later htyped).later hnoted
  cases child.nameOf? .name with
  | none => exact .done
  | some name =>
    rw [Course.declaring, ← h.scope]
    refine .before (.declare name h.registered) fun declared found _ _ => ?_
    cases found with
    | none => exact .done
    | some value => exact .addType declared value type

theorem follows_hoistVariables (h : Stands place spot run) (child : Node) :
    Follows run (hoistVariables place child)
      (child.parts.flatMap fun declarator => Course.declaring spot (declarator.nameOf? .name))
      fun _ _ => True := by
  refine .forM (Stands place spot) (fun _ _ => .mono) (fun declarator _ run h => ?_) h
  cases declarator.nameOf? .name with
  | none => exact .done
  | some name =>
    rw [Course.declaring, ← h.scope]
    exact (Follows.declare name h.registered).discard

/-- Steps for the parts of a node, of which each follows the course of the part. -/
theorem follows_parts {each : Node × Meaning → Infer Unit} {acts : Node × Course → List Act}
    (h : ∀ child ∈ node.parts, ∀ run, Stands place spot run →
      Follows run (each (child, meaning child)) (acts (child, course child)) fun _ _ => True)
    (hrun : Stands place spot run) :
    Follows run ((family node).parts.forM each)
      (((Course.family node).filter (!·.1.isComment)).flatMap acts) fun _ _ => True := by
  rw [parts_family, filter_family, List.flatMap_map, List.forM_eq_forM, List.forM_map]
  exact .forM (Stands place spot) (fun _ _ => .mono) h hrun

theorem follows_hoistParts (hall : Guided node) (h : Stands place spot run) :
    Follows run (hoistParts (family node) place) (Course.hoisting (Course.family node) spot)
      fun _ _ => True := by
  refine follows_parts (fun child hchild run h => ?_) h
  dsimp only
  split
  case h_1 hkind =>
    simp only [Course.hoistingOf, hkind]
    exact follows_hoistFunction h child
  case h_2 hkind =>
    simp only [Course.hoistingOf, hkind]
    exact follows_hoistFunction h child
  case h_3 hkind =>
    simp only [Course.hoistingOf, hkind]
    exact follows_hoistVariables h child
  case h_4 hkind =>
    simp only [Course.hoistingOf, hkind]
    exact .done
  case h_5 hkind =>
    simp only [Course.hoistingOf, hkind]
    exact .done
  case h_6 =>
    simp only [Course.hoistingOf, *]
    split
    · exact .done
    · exact (hall.of_mem hchild).hoist run place spot h

/-! ### Functions -/

theorem follows_doParts (hall : Guided node) (h : Stands place spot run) :
    Follows run (doParts (family node) place) (Course.each (Course.family node) .walk spot)
      fun _ _ => True :=
  follows_parts (fun _ hchild run h => (hall.of_mem hchild).walk run place spot h) h

theorem follows_bindEach (hall : Guided node) (h : Stands place spot run) :
    Follows run (bindEach (family node) place) (Course.each (Course.family node) .bind spot)
      fun _ _ => True :=
  follows_parts (fun _ hchild run h => (hall.of_mem hchild).bind run place spot h) h

theorem follows_bindParameters (hall : Guided node) (h : Stands place spot run) :
    Follows run (bindParameters (family node) place)
      (Course.parameters (Course.family node) spot) fun _ _ => True := by
  unfold bindParameters Course.parameters
  rw [part?_family, find?_family]
  cases hsingle : node.part? .parameter with
  | some single => exact (hall.of_part? hsingle).bind run place spot h
  | none =>
    dsimp only [Option.map_none]
    rw [part?_family]
    cases hlist : node.part? .parameters with
    | some list =>
      rw [part_of_some _ _ hlist]
      exact (hall.of_part? hlist).bindParts run place spot h
    | none =>
      rw [part_of_none _ _ hlist]
      exact .done

theorem follows_runBody (hall : Guided node) (result : ValueId) (before : List Act)
    (h : Stands place (spot.enter node.id before) run)
    (hlater : ∀ acts next, Performed run acts next →
      Stands place (spot.enter node.id (before ++ acts)) next) :
    Follows run (runBody (family node) place result)
      (Course.body node (Course.family node) spot before) fun _ _ => True := by
  unfold runBody Course.body
  rw [part?_family, find?_family]
  cases hbody : node.part? .body with
  | none => exact .done
  | some body =>
    have hchild := hall.of_part? hbody
    dsimp only [Option.map_some]
    split
    · refine .bind (hchild.hoist run place _ h) fun hoisted _ hhoisted _ => ?_
      exact hchild.walkParts hoisted place _ (hlater _ hoisted hhoisted)
    · refine .before (hchild.evaluate run place _ h) fun evaluated value _ _ => ?_
      exact .propagate evaluated value result

theorem follows_knownType (run : Run) (node : Node) (place : Place) :
    Follows run (knownType node place) [] fun _ _ => True := by
  refine .look (fun _ => rfl) ?_
  cases run.functions.lookup node.id with
  | none => exact .functionType run place node
  | some type => exact .pure trivial

theorem follows_nameInside (type : TypeId) (h : (run.scopes.get? node.id).isSome = true) :
    Follows run (nameInside node type) ((Course.ownName node).toList.map (.declares node.id))
      fun _ _ => True := by
  unfold nameInside Course.ownName
  cases node.kind.isFunctionDeclaration with
  | true => exact .done
  | false =>
    cases node.nameOf? .name with
    | none => exact .done
    | some name =>
      refine .before (.declare name h) fun declared found _ _ => ?_
      cases found with
      | none => exact .done
      | some value => exact .addType declared value type

theorem follows_resultOf (run : Run) (type : TypeId) :
    Follows run (resultOf type) [] fun _ _ => True := by
  refine .look (fun _ => rfl) ?_
  cases run.store.result? type with
  | none => exact .newValue run
  | some result => exact .pure trivial

theorem follows_function (hall : Guided node) (h : Stands place spot run) :
    Follows run (function node (family node) place)
      (Course.function node (Course.family node) spot)
      fun next value => next.expressions.head? = some (node.id, value) := by
  -- what has been done since the function was begun is known inside of it
  have hinside : ∀ {acts next}, Performed run acts next → .opens node.id spot.scope ∈ acts →
      ∀ inner : Place, inner.scope = node.id → Stands inner (spot.enter node.id acts) next :=
    fun hperformed hopens inner hscope =>
      ⟨hscope, h.known.enter hperformed (hperformed.isSome_get? hopens)⟩
  unfold Course.function
  dsimp only
  rw [List.append_assoc, List.append_assoc, ← List.singleton_append, List.append_assoc]
  refine .after (follows_knownType run node place) fun known type hknown _ => ?_
  rw [h.scope]
  refine .bind (.registerScope node.id (h.later hknown).known.scope)
    fun registered _ hregistered _ => ?_
  have hopened := hknown.append hregistered
  refine .bind (follows_nameInside type (hopened.isSome_get? List.mem_cons_self))
    fun named _ hnamed _ => ?_
  have hopening := hopened.append hnamed
  refine .bind (follows_bindParameters hall (hinside hopening List.mem_cons_self _ rfl))
    fun bound _ hbound _ => ?_
  have hready := hopening.append hbound
  refine .after (follows_resultOf bound type) fun returned result hreturned _ => ?_
  have hreturned := hready.append hreturned
  rw [List.append_nil] at hreturned
  refine .bind (follows_runBody hall result _ (hinside hreturned List.mem_cons_self _ rfl)
    fun acts next hacts => hinside (hreturned.append hacts) List.mem_cons_self _ rfl)
    fun left _ _ _ => ?_
  refine .after (.valueOf left type) fun made value _ _ => ?_
  refine .before (.note made node.id value) fun noted _ _ hnoted => ?_
  exact .pure hnoted

/-- Bind a parameter. -/
theorem follows_bindParameter (hall : Guided node) (h : Stands place spot run) :
    Follows run (bindParameter node (family node) place)
      (Course.parameter node (Course.family node) spot) fun _ _ => True := by
  unfold bindParameter Course.parameter
  cases node.parameterName? with
  | none => exact .done
  | some name =>
    dsimp only
    rw [← List.singleton_append, h.scope]
    refine .bind (.declare name h.known.scope) fun declared variable' hdeclared _ => ?_
    have h := h.later hdeclared
    split
    · rw [part?_family]
      cases hright : node.part? .right with
      | none =>
        rw [part_of_none _ _ hright]
        exact .done
      | some right =>
        rw [part_of_some _ _ hright]
        refine .before ((hall.of_part? hright).evaluate declared place spot h)
          fun evaluated value _ _ => ?_
        exact .flow evaluated value variable'
    · exact .done

/-! ### Expressions -/

theorem follows_partValue (hall : Guided node) (h : Stands place spot run) (role : Role) :
    Follows run (partValue (family node) place role)
      (Course.part (Course.family node) .evaluate spot role) fun next value =>
        ∀ child ∈ node.part? role, next.expressions.head? = some (child.id, value) := by
  unfold partValue
  rw [part?_family]
  cases hchild : node.part? role with
  | none =>
    rw [part_of_none _ _ hchild]
    exact (Follows.newValue run).mono fun _ _ _ _ h => nomatch h
  | some child =>
    rw [part_of_some _ _ hchild]
    refine ((hall.of_part? hchild).evaluate run place spot h).mono fun next value hnoted => ?_
    rintro _ ⟨rfl⟩
    exact hnoted

theorem follows_lookAt (hall : Guided node) (h : Stands place spot run) (role : Role) :
    Follows run (lookAt (family node) place role)
      (Course.part (Course.family node) .evaluate spot role) fun _ _ => True := by
  unfold lookAt
  rw [part?_family]
  cases hchild : node.part? role with
  | none =>
    rw [part_of_none _ _ hchild]
    exact .done
  | some child =>
    rw [part_of_some _ _ hchild]
    exact ((hall.of_part? hchild).evaluate run place spot h).discard

theorem follows_doArguments (hall : Guided node) (h : Stands place spot run) :
    Follows run (doArguments (family node) place)
      (Course.part (Course.family node) .walkParts spot .arguments) fun _ _ => True := by
  unfold doArguments
  rw [part?_family]
  cases hchild : node.part? .arguments with
  | none =>
    rw [part_of_none _ _ hchild]
    exact .done
  | some child =>
    rw [part_of_some _ _ hchild]
    exact (hall.of_part? hchild).walkParts run place spot h

theorem follows_nameValue (run : Run) (node : Node) (place : Place) :
    Follows run (nameValue node place) [] fun _ _ => True := by
  refine .look (fun _ => rfl) ?_
  cases run.scopes.lookup? place.scope node.lexeme with
  | none => exact .newValue run
  | some value => exact .pure trivial

theorem follows_lastValue (hall : Guided node) (h : Stands place spot run) :
    Follows run (lastValue (family node) place)
      (Course.each (Course.family node) .evaluate spot) fun _ _ => True := by
  unfold lastValue
  rw [parts_family, each_family, List.mapM_map]
  have hvalues : Follows run (node.parts.mapM fun child => (meaning child).evaluate place)
      (node.parts.flatMap fun child => course child .evaluate spot) fun _ _ => True :=
    .mapM (Stands place spot) (fun _ _ => .mono)
      (fun child hchild run h => ((hall.of_mem hchild).evaluate run place spot h).trivial) h
  refine .before hvalues fun evaluated values _ _ => ?_
  cases values.getLast? with
  | none => exact .newValue evaluated
  | some value => exact .pure trivial

theorem follows_objectValue (hall : Guided node) (h : Stands place spot run) :
    Follows run (objectValue (family node) place)
      (Course.each (Course.family node) .addTo spot) fun _ _ => True := by
  refine .after (.growing (.object none (some place.file))) fun made type hmade _ => ?_
  refine .before (follows_parts (fun _ hchild run h =>
    (hall.of_mem hchild).addTo run place spot type h) (h.later hmade)) fun filled _ _ _ => ?_
  exact .valueOf filled type

theorem follows_arrayValue (hall : Guided node) (h : Stands place spot run) :
    Follows run (arrayValue (family node) place)
      (Course.each (Course.family node) .walk spot) fun _ _ => True :=
  .before (follows_doParts hall h) fun done _ _ _ =>
    .newInstance done (some "Array") (some place.file)

theorem follows_memberValue (hall : Guided node) (h : Stands place spot run) :
    Follows run (memberValue node (family node) place)
      (Course.part (Course.family node) .evaluate spot .object) fun _ _ => True := by
  refine .before (follows_partValue hall h .object) fun evaluated object _ _ => ?_
  refine .after (.newValue evaluated) fun made value _ _ => ?_
  dsimp only
  split
  · refine .look (fun _ => rfl) ?_
    refine .after (.forM_quiet fun type run => .addType run value type) fun _ _ _ _ => ?_
    exact .pure trivial
  · exact .pure trivial

theorem follows_callValue (hall : Guided node) (h : Stands place spot run) :
    Follows run (callValue (family node) place)
      (Course.part (Course.family node) .evaluate spot .callee ++
        Course.part (Course.family node) .walkParts spot .arguments) fun _ _ => True := by
  refine .bind (follows_partValue hall h .callee) fun evaluated callee hevaluated _ => ?_
  refine .before (follows_doArguments hall (h.later hevaluated)) fun passed _ _ _ => ?_
  refine .after (.newValue passed) fun made value _ _ => ?_
  refine .look (fun _ => rfl) ?_
  refine .after (.forM_quiet fun type run => ?_) fun _ _ _ _ => .pure trivial
  refine .look (fun _ => rfl) ?_
  cases run.store.result? type with
  | none => exact .done
  | some result => exact .propagate run result value

theorem follows_instanceValue (hall : Guided node) (h : Stands place spot run) :
    Follows run (instanceValue node (family node) place)
      (Course.part (Course.family node) .evaluate spot .constructor ++
        Course.part (Course.family node) .walkParts spot .arguments) fun _ _ => True := by
  refine .bind (follows_lookAt hall h .constructor) fun evaluated _ hevaluated _ => ?_
  refine .before (follows_doArguments hall (h.later hevaluated)) fun passed _ _ _ => ?_
  exact .newInstance passed _ (some place.file)

theorem follows_assignmentValue (hall : Guided node) (h : Stands place spot run) :
    Follows run (assignmentValue (family node) place)
      (Course.part (Course.family node) .evaluate spot .right ++
        Course.part (Course.family node) (.receive (node.part? .right)) spot .left)
      fun _ _ => True := by
  refine .bind (follows_partValue hall h .right) fun evaluated right hevaluated hsource => ?_
  rw [part?_family]
  cases hleft : node.part? .left with
  | none =>
    rw [part_of_none _ _ hleft]
    exact .pure trivial
  | some left =>
    rw [part_of_some _ _ hleft]
    refine .before ((hall.of_part? hleft).receive evaluated place spot _ right
      (h.later hevaluated) hsource) fun _ _ _ _ => ?_
    exact .pure trivial

theorem follows_choiceValue (hall : Guided node) (h : Stands place spot run) :
    Follows run (choiceValue (family node) place)
      (Course.part (Course.family node) .evaluate spot .condition ++
        Course.part (Course.family node) .evaluate spot .consequence ++
        Course.part (Course.family node) .evaluate spot .alternative) fun _ _ => True := by
  have hboth : Course.part (Course.family node) .evaluate spot .consequence ++
      Course.part (Course.family node) .evaluate spot .alternative =
      [Role.consequence, Role.alternative].flatMap
        (Course.part (Course.family node) .evaluate spot) := by
    simp only [List.flatMap_cons, List.flatMap_nil, List.append_nil]
  rw [List.append_assoc, hboth]
  refine .bind (follows_lookAt hall h .condition) fun evaluated _ hevaluated _ => ?_
  refine .after (.newValue evaluated) fun made value hmade _ => ?_
  refine .before (.forM (Stands place spot) (fun _ _ => .mono) (fun role _ run h => ?_)
    ((h.later hevaluated).later hmade)) fun _ _ _ _ => .pure trivial
  rw [part?_family]
  cases hbranch : node.part? role with
  | none =>
    rw [part_of_none _ _ hbranch]
    exact .done
  | some branch =>
    rw [part_of_some _ _ hbranch]
    refine .before ((hall.of_part? hbranch).evaluate run place spot h) fun found held _ _ => ?_
    exact .propagate found held value

theorem follows_valueByKind (hall : Guided node) (h : Stands place spot run) :
    Follows run (valueByKind node (family node) place)
      (Course.valueByKind node (Course.family node) spot) fun _ _ => True := by
  unfold valueByKind
  split
  case h_1 hkind =>
    simp only [Course.valueByKind, hkind]
    exact .valueOf run _
  case h_2 hkind =>
    simp only [Course.valueByKind, hkind]
    exact .valueOf run _
  case h_3 hkind =>
    simp only [Course.valueByKind, hkind]
    exact .valueOf run _
  case h_4 hkind =>
    simp only [Course.valueByKind, hkind]
    exact .valueOf run _
  case h_5 hkind =>
    simp only [Course.valueByKind, hkind]
    exact .valueOf run _
  case h_6 hkind =>
    simp only [Course.valueByKind, hkind]
    exact follows_nameValue run node place
  case h_7 hkind =>
    simp only [Course.valueByKind, hkind]
    exact follows_lastValue hall h
  case h_8 hkind =>
    simp only [Course.valueByKind, hkind]
    exact follows_lastValue hall h
  case h_9 hkind =>
    simp only [Course.valueByKind, hkind]
    exact follows_objectValue hall h
  case h_10 hkind =>
    simp only [Course.valueByKind, hkind]
    exact follows_arrayValue hall h
  case h_11 hkind =>
    simp only [Course.valueByKind, hkind]
    exact (follows_function hall h).trivial
  case h_12 hkind =>
    simp only [Course.valueByKind, hkind]
    exact (follows_function hall h).trivial
  case h_13 hkind =>
    simp only [Course.valueByKind, hkind]
    exact (follows_function hall h).trivial
  case h_14 hkind =>
    simp only [Course.valueByKind, hkind]
    exact follows_memberValue hall h
  case h_15 hkind =>
    simp only [Course.valueByKind, hkind]
    exact follows_callValue hall h
  case h_16 hkind =>
    simp only [Course.valueByKind, hkind]
    exact follows_instanceValue hall h
  case h_17 hkind =>
    simp only [Course.valueByKind, hkind]
    exact follows_assignmentValue hall h
  case h_18 hkind =>
    simp only [Course.valueByKind, hkind]
    exact follows_choiceValue hall h
  case h_19 =>
    simp only [Course.valueByKind, *]
    exact .before (follows_doParts hall h) fun done _ _ _ => .newValue done

theorem follows_value (hall : Guided node) (h : Stands place spot run) :
    Follows run (Meaning.value node (family node) place)
      (Course.value node (Course.family node) spot)
      fun next value => next.expressions.head? = some (node.id, value) := by
  refine .bind (follows_valueByKind hall h) fun evaluated value _ _ => ?_
  exact .before (.note evaluated node.id value) fun _ _ _ hnoted => .pure hnoted

/-! ### Statements -/

theorem follows_declarator (hall : Guided node) (h : Stands place spot run) :
    Follows run (declarator node (family node) place)
      (Course.declarator node (Course.family node) spot) fun _ _ => True := by
  have hdeclare : Follows run (declareName node place)
      (Course.declaring spot (node.nameOf? .name)) fun _ _ => True := by
    unfold declareName
    cases node.nameOf? .name with
    | none => exact .pure trivial
    | some name =>
      rw [Course.declaring, ← h.scope]
      exact .declare name h.registered
  unfold declarator Course.declarator
  split
  · refine .bind hdeclare fun declared found hdeclared _ => ?_
    rw [part?_family]
    cases hchild : node.part? .value with
    | none =>
      rw [part_of_none _ _ hchild]
      exact .done
    | some child =>
      rw [part_of_some _ _ hchild]
      refine .before ((hall.of_part? hchild).evaluate declared place spot (h.later hdeclared))
        fun evaluated value _ _ => ?_
      exact .flow evaluated value found
  · exact .done

theorem follows_returning (hall : Guided node) (h : Stands place spot run) :
    Follows run (returning (family node) place)
      (Course.returning (Course.family node) spot) fun _ _ => True := by
  unfold returning Course.returning
  rw [parts_family, filter_family]
  cases hparts : node.parts with
  | nil => exact .done
  | cons child rest =>
    have hchild : child ∈ node.parts := hparts ▸ List.mem_cons_self
    refine .before ((hall.of_mem hchild).evaluate run place spot h) fun evaluated value _ _ => ?_
    exact .flow evaluated value place.result

theorem follows_statement (hall : Guided node) (h : Stands place spot run) :
    Follows run (statement node (family node) place)
      (Course.statement node (Course.family node) spot) fun _ _ => True := by
  have hdeclare : Follows run ((family node).parts.forM fun child => child.2.declare place)
      (Course.each (Course.family node) .declare spot) fun _ _ => True :=
    follows_parts (fun _ hchild run h => (hall.of_mem hchild).declare run place spot h) h
  unfold statement
  split
  case h_1 hkind =>
    simp only [Course.statement, hkind]
    exact hdeclare
  case h_2 hkind =>
    simp only [Course.statement, hkind]
    exact hdeclare
  case h_3 hkind =>
    simp only [Course.statement, hkind]
    exact (follows_function hall h).discard
  case h_4 hkind =>
    simp only [Course.statement, hkind]
    exact (follows_function hall h).discard
  case h_5 hkind =>
    simp only [Course.statement, hkind]
    exact follows_returning hall h
  case h_6 =>
    simp only [Course.statement, *]
    split
    · exact (follows_value hall h).discard
    · exact follows_doParts hall h

/-! ### Members and targets -/

theorem follows_objectMember (hall : Guided node) (object : TypeId) (h : Stands place spot run) :
    Follows run (objectMember node (family node) place object)
      (Course.objectMember node (Course.family node) spot) fun _ _ => True := by
  unfold objectMember
  split
  case h_1 hkind =>
    simp only [Course.objectMember, hkind]
    rw [part?_family]
    cases hchild : node.part? .value with
    | none =>
      rw [part_of_none _ _ hchild]
      exact .done
    | some child =>
      dsimp only [Option.map_some]
      rw [part_of_some _ _ hchild]
      refine .before ((hall.of_part? hchild).evaluate run place spot h)
        fun evaluated value _ _ => ?_
      split
      · exact .fillMember evaluated object _ value
      · exact .done
  case h_2 hkind =>
    simp only [Course.objectMember, hkind]
    refine .after (.ensureMember run object node.lexeme) fun ensured member _ _ => ?_
    refine .look (fun _ => rfl) ?_
    cases ensured.scopes.lookup? place.scope node.lexeme with
    | none => exact .done
    | some found => exact .propagate ensured found member
  case h_3 hkind =>
    simp only [Course.objectMember, hkind]
    refine .before (follows_function hall h) fun made value _ _ => ?_
    split
    · exact .fillMember made object _ value
    · exact .done
  case h_4 =>
    simp only [Course.objectMember, *]
    exact follows_statement hall h

theorem follows_target (hall : Guided node) (source : Option Node) (right : ValueId)
    (h : Stands place spot run)
    (hsource : ∀ node ∈ source, run.expressions.head? = some (node.id, right)) :
    Follows run (target node (family node) place right)
      (Course.target node (Course.family node) spot source) fun _ _ => True := by
  by_cases hkind : node.kind = .identifier
  · intro answer next hrun
    have hreceive : ((meaning node).receive right place).run.run run = (.ok (), next) := by
      rw [meaning_eq]
      exact hrun
    simp only [Course.target, hkind]
    exact ⟨.single (.assigns hkind h.known hsource h.scope hreceive), trivial⟩
  · unfold target
    split
    case h_1 hidentifier => exact absurd hidentifier hkind
    case h_2 hmember =>
      simp only [Course.target, hmember]
      rw [part?_family]
      cases hchild : node.part? .object with
      | none =>
        rw [part_of_none _ _ hchild]
        exact .done
      | some child =>
        dsimp only [Option.map_some]
        rw [part_of_some _ _ hchild]
        refine .before ((hall.of_part? hchild).evaluate run place spot h)
          fun evaluated object _ _ => ?_
        cases node.nameOf? .property with
        | none => exact .done
        | some name =>
          refine .look (fun _ => rfl) (.forM_quiet fun type run => ?_)
          refine .look (fun _ => rfl) ?_
          split
          · exact .fillMember run type name right
          · exact .done
    case h_3 =>
      simp only [Course.target, *]
      exact follows_statement hall h

/-! ### All together -/

theorem performs_make (hall : Guided node) :
    (make node (family node)).Performs node (Course.make node (Course.family node)) where
  hoist _ _ _ h := follows_hoistParts hall h
  walkParts _ _ _ h := follows_doParts hall h
  walk _ _ _ h := follows_statement hall h
  evaluate _ _ _ h := follows_value hall h
  declare _ _ _ h := follows_declarator hall h
  addTo _ _ _ object h := follows_objectMember hall object h
  bind _ _ _ h := follows_bindParameter hall h
  bindParts _ _ _ h := follows_bindEach hall h
  receive _ _ _ source right h hsource := follows_target hall source right h hsource

end Meaning

/-- The meaning of every node follows the node's course. -/
theorem meaning_performs (node : Node) : (meaning node).Performs node (course node) := by
  induction node using Node.induction with
  | step node ih =>
    rw [meaning_eq, course_eq]
    exact Meaning.performs_make ih

def Run.begun (store : Store) (root : Node) : Run :=
  ⟨store, Scopes.empty.register root.id none, [], []⟩

/-- What a run on a script has made when it is over. -/
structure Run.Ends (last : Run) (inference : FileInference) (after : Store) : Prop where
  scopes : last.scopes = inference.scopes
  expressions : last.expressions = inference.expressions
  store : last.store = after

/-- A script that is inferred has done all the acts of its course. -/
theorem performed_inferFile {file : String} {root : Node} {store after : Store}
    {inference : FileInference} (h : inferFile file root store = (.ok inference, after)) :
    ∃ last : Run, Performed (.begun store root) (scriptCourse root) last ∧
      last.Ends inference after := by
  have hrun : Follows (.begun store root) (do
      let place : Place := ⟨file, root.id, none⟩
      (meaning root).hoist place
      (meaning root).walkParts place) (scriptCourse root) fun _ _ => True := by
    have hnested := Scopes.nested_register_empty root.id
    have hroot : ((Run.begun store root).scopes.get? root.id).isSome = true :=
      Scopes.isSome_get?_register _ _ _
    have hknown : Spot.Known ⟨root.id, []⟩ (Run.begun store root).scopes :=
      ⟨hnested, hroot, fun _ hframe => absurd hframe List.not_mem_nil⟩
    refine .bind ((meaning_performs root).hoist _ ⟨file, root.id, none⟩ ⟨root.id, []⟩
      ⟨rfl, hknown⟩) fun hoisted _ hhoisted _ => ?_
    refine (meaning_performs root).walkParts hoisted ⟨file, root.id, none⟩ _ ⟨rfl, ?_⟩
    exact hknown.enter hhoisted (hhoisted.lasts.scopes.isSome_get? hroot)
  unfold inferFile at h
  cases houtcome : (inferProgram file root).run.run ⟨store, .empty, [], []⟩ with
  | mk outcome last =>
    rw [houtcome] at h
    cases outcome with
    | error error => cases h
    | ok answer =>
      cases h
      obtain ⟨_, begun, hbegun, hrest⟩ := eq_ok_of_bind houtcome
      cases hbegun
      exact ⟨last, (hrun answer last hrest).1, ⟨rfl, rfl, rfl⟩⟩

end Capabilities.Inference
