import Capabilities.Proofs.Inference.Disciplined
import Capabilities.Proofs.Types.Chains

/-!
# What stays remembered

The types made ahead for declarations are remembered by the nodes of the declarations. What a
construct does remembers types for declarations inside the functions in it, when their bodies are
run, and for no others: the construct *spares* them. It also takes nothing out of the store.

Declaring ahead what is in a node remembers types for declarations in the node itself. So a
declaration is spared by a node in which it is not, and in every other position than this one also
by a node in which it is, unless it is inside a function there.
-/

namespace Capabilities.Inference

open Script Capabilities.Types

variable {α β : Type} {ids : Nat → Prop}

/-- Later the store has advanced, the scopes and their variables are still there, and so is what is
    remembered for some nodes. -/
structure Run.Retains (ids : Nat → Prop) (run later : Run) : Prop where
  store : run.store.Advances later.store
  scopes : run.scopes.Remain later.scopes
  functions : ∀ id, ids id → later.functions.lookup id = run.functions.lookup id

theorem Run.Retains.refl (run : Run) : run.Retains ids run := ⟨.refl _, .refl _, fun _ _ => rfl⟩

theorem Run.Retains.trans {run later last : Run} (h : run.Retains ids later)
    (h' : later.Retains ids last) : run.Retains ids last :=
  ⟨h.store.trans h'.store, h.scopes.trans h'.scopes,
    fun id hid => (h'.functions id hid).trans (h.functions id hid)⟩

/-- A run, with a view to what is remembered for some nodes. -/
structure Spared (ids : Nat → Prop) where
  run : Run

instance : Preorder (Spared ids) where
  le world later := world.run.Retains ids later.run
  le_refl world := .refl world.run
  le_trans _ _ _ h h' := h.trans h'

/-- A step takes nothing out of the store and the scopes, and what is remembered for some nodes
    stays. -/
def Spares (ids : Nat → Prop) (step : Infer α) : Prop :=
  ∀ start : Spared ids, Keeps Spared.run start step fun _ _ => True

namespace Spares

variable {step : Infer α} {run next : Run}

theorem retains {answer : α} (h : Spares ids step)
    (hrun : step.run.run run = (.ok answer, next)) : run.Retains ids next := by
  obtain ⟨_, hle, rfl, -⟩ := h ⟨run⟩ ⟨run⟩ (le_refl _) answer next hrun
  exact hle

theorem pure (answer : α) : Spares ids (Pure.pure answer) :=
  fun _ => .pure fun _ _ => trivial

theorem bind {rest : α → Infer β} (h : Spares ids step)
    (hrest : ∀ answer, Spares ids (rest answer)) :
    Spares ids (step >>= rest) :=
  fun start => .bind (h start) fun world answer _ _ => hrest answer world

theorem look {view : Run → α} {rest : α → Infer β}
    (hview : ∀ run, step.run.run run = (.ok (view run), run))
    (hrest : ∀ answer, Spares ids (rest answer)) : Spares ids (step >>= rest) :=
  fun _ => .look hview fun world _ => hrest _ world

theorem forM {ι : Type} {items : List ι} {each : ι → Infer Unit}
    (h : ∀ item ∈ items, Spares ids (each item)) : Spares ids (items.forM each) :=
  fun _ => .forM fun item hitem world _ => h item hitem world

theorem mapM {ι : Type} {items : List ι} {each : ι → Infer α}
    (h : ∀ item ∈ items, Spares ids (each item)) : Spares ids (items.mapM each) :=
  fun _ => .mapM fun item hitem world _ => h item hitem world

/-! ### Steps that touch no tree -/

/-- The store may grow. -/
theorem onStore {operation : Store → Except StoreError α × Store}
    (h : ∀ store answer next, operation store = (.ok answer, next) → store.Advances next) :
    Spares ids (Inference.onStore operation) :=
  fun _ => .onStore fun world _ answer next hrun =>
    ⟨⟨{ world.run with store := next }⟩,
      ⟨h _ answer next hrun, .refl _, fun _ _ => rfl⟩, rfl, trivial⟩

theorem growing {operation : Store → α × Store}
    (h : ∀ store : Store, store.Advances (operation store).2) :
    Spares ids (Inference.growing operation) :=
  onStore fun store _ _ hrun => by
    cases hrun
    exact h store

theorem newValue : Spares ids newValue :=
  growing fun _ => Store.Change.value.advances

theorem newObject (name origin : Option String) :
    Spares ids (Inference.growing (·.newObject name origin)) :=
  growing fun _ => (Store.Change.object name origin).advances

theorem functionType (place : Place) (node : Node) : Spares ids (functionType place node) :=
  growing fun _ => (Store.Change.function _ _ _).advances

theorem addType (value : ValueId) (type : TypeId) : Spares ids (addType value type) :=
  bind (onStore fun _ _ _ hrun => (Store.filled_addType hrun).changes.advances) fun _ => pure ()

theorem propagate (source target : ValueId) : Spares ids (propagate source target) :=
  onStore fun _ _ _ hrun => (Store.filled_propagate hrun).changes.advances

theorem ensureMember (object : TypeId) (name : String) : Spares ids (ensureMember object name) :=
  onStore fun store member next hrun => by
    obtain ⟨found, hobject, ⟨-, rfl⟩ | ⟨hname, -, rfl⟩⟩ := Store.ensureMember_ok hrun
    · exact .refl _
    · exact (Store.Change.member hobject hname).advances

theorem flow (source : ValueId) (target : Option ValueId) : Spares ids (flow source target) := by
  cases target with
  | none => exact pure ()
  | some target => exact propagate source target

theorem declare (scope : ScopeId) (name : String) : Spares ids (Inference.declare scope name) :=
  fun _ => .declare (fun _ _ => trivial) (fun _ _ _ _ => trivial) fun world _ _ hscope hnone =>
    ⟨⟨{ world.run with
        scopes := world.run.scopes.withVariable scope name world.run.store.newValue.1
        store := world.run.store.newValue.2 }⟩,
      ⟨Store.Change.value.advances, .withVariable hscope hnone _, fun _ _ => rfl⟩, rfl, trivial⟩

/-- Scopes may be added, and what is remembered for other nodes may change. -/
theorem change {change : Run → Run} (hstore : ∀ run, (change run).store = run.store)
    (hscopes : ∀ run : Run, run.scopes.Remain (change run).scopes)
    (hlookup : ∀ run id, ids id → (change run).functions.lookup id = run.functions.lookup id) :
    Spares ids (modify change) :=
  fun _ => .change fun world _ => ⟨⟨change world.run⟩,
    ⟨hstore world.run ▸ .refl _, hscopes world.run, hlookup world.run⟩, rfl⟩

theorem registerScope (scope : ScopeId) (parent : Option ScopeId) :
    Spares ids (registerScope scope parent) :=
  change (fun _ => rfl) (fun run => .register run.scopes scope parent) fun _ _ _ => rfl

theorem note (id : Nat) (value : ValueId) : Spares ids (note id value) :=
  change (fun _ => rfl) (fun _ => .refl _) fun _ _ _ => rfl

theorem remember {id : Nat} (hid : ¬ids id) (type : TypeId) : Spares ids (remember id type) :=
  change (fun _ => rfl) (fun _ => .refl _) fun run other hother => by
    have hne : (other == id) = false := beq_false_of_ne fun heq => hid (heq ▸ hother)
    rw [List.lookup_cons, hne]

theorem valueOf (type : TypeId) : Spares ids (valueOf type) :=
  bind newValue fun value => bind (addType value type) fun _ => pure value

end Spares

/-! ### Constructs -/

/-- A meaning that spares some nodes, in every position but that of declaring ahead. -/
structure Meaning.Spares (ids : Nat → Prop) (meaning : Meaning) : Prop where
  walkParts : ∀ place, Inference.Spares ids (meaning.walkParts place)
  walk : ∀ place, Inference.Spares ids (meaning.walk place)
  evaluate : ∀ place, Inference.Spares ids (meaning.evaluate place)
  declare : ∀ place, Inference.Spares ids (meaning.declare place)
  addTo : ∀ object place, Inference.Spares ids (meaning.addTo object place)
  bind : ∀ place, Inference.Spares ids (meaning.bind place)
  bindParts : ∀ place, Inference.Spares ids (meaning.bindParts place)
  receive : ∀ value place, Inference.Spares ids (meaning.receive value place)

namespace Meaning

variable {node : Node} {children : Children} {place : Place}

/-- The children that are reached spare some nodes. -/
structure Children.Spare (ids : Nat → Prop) (children : Children) : Prop where
  parts : ∀ child ∈ children.parts, child.2.Spares ids
  part? : ∀ role child, children.part? role = some child → child.2.Spares ids

/-- Nothing is remembered for some nodes when what is in a body is declared ahead. -/
def Children.SpareAhead (ids : Nat → Prop) (children : Children) : Prop :=
  ∀ body, children.part? .body = some body → ∀ place, Inference.Spares ids (body.2.hoist place)

theorem spares_hoistFunction {child : Node} (h : ¬ids child.id) :
    Inference.Spares ids (hoistFunction place child) := by
  refine .bind (.functionType place child) fun type => .bind (.remember h type) fun _ => ?_
  split
  · refine .bind (.declare _ _) fun value => ?_
    split
    · exact .addType _ _
    · exact .pure ()
  · exact .pure ()

theorem spares_hoistVariables (child : Node) :
    Inference.Spares ids (hoistVariables place child) := by
  refine .forM fun declarator _ => ?_
  split
  · exact .bind (.declare _ _) fun _ => .pure ()
  · exact .pure ()

/-- Types are remembered for function declarations among the parts, and for those in other parts
    that are gone through. -/
theorem spares_hoistParts (h : ∀ child ∈ node.parts, ¬ids child.id)
    (hinner : ∀ child ∈ node.parts, ∀ place, Inference.Spares ids ((meaning child).hoist place)) :
    Inference.Spares ids (hoistParts (family node) place) := by
  unfold hoistParts
  rw [parts_family]
  refine .forM fun item hitem => ?_
  obtain ⟨child, hchild, rfl⟩ := List.mem_map.1 hitem
  dsimp only
  split
  · exact spares_hoistFunction (h child hchild)
  · exact spares_hoistFunction (h child hchild)
  · exact spares_hoistVariables child
  · exact .pure ()
  · exact .pure ()
  · split
    · exact .pure ()
    · exact hinner child hchild place

theorem spares_doParts (h : children.Spare ids) : Inference.Spares ids (doParts children place) :=
  .forM fun child hchild => (h.parts child hchild).walk place

theorem spares_bindEach (h : children.Spare ids) :
    Inference.Spares ids (bindEach children place) :=
  .forM fun child hchild => (h.parts child hchild).bind place

theorem spares_bindParameters (h : children.Spare ids) :
    Inference.Spares ids (bindParameters children place) := by
  unfold bindParameters
  split
  · exact (h.part? _ _ ‹_›).bind place
  · split
    · exact (h.part? _ _ ‹_›).bindParts place
    · exact .pure ()

theorem spares_runBody (h : children.Spare ids) (hahead : children.SpareAhead ids)
    (result : ValueId) : Inference.Spares ids (runBody children place result) := by
  unfold runBody
  split
  · rename_i hbody
    split
    · exact .bind (hahead _ hbody place) fun _ => (h.part? _ _ hbody).walkParts place
    · exact .bind ((h.part? _ _ hbody).evaluate place) fun _ => .propagate _ _
  · exact .pure ()

theorem spares_knownType : Inference.Spares ids (knownType node place) := by
  refine .look (fun _ => rfl) fun type => ?_
  cases type with
  | none => exact .functionType place node
  | some type => exact .pure type

theorem spares_nameInside (type : TypeId) : Inference.Spares ids (nameInside node type) := by
  unfold nameInside
  split
  · exact .pure ()
  · split
    · refine .bind (.declare _ _) fun value => ?_
      split
      · exact .addType _ _
      · exact .pure ()
    · exact .pure ()

theorem spares_resultOf (type : TypeId) : Inference.Spares ids (resultOf type) := by
  refine .look (fun _ => rfl) fun store => ?_
  split
  · exact .pure _
  · exact .newValue

theorem spares_function (h : children.Spare ids) (hahead : children.SpareAhead ids) :
    Inference.Spares ids (function node children place) :=
  .bind spares_knownType fun type => .bind (.registerScope _ _) fun _ =>
    .bind (spares_nameInside type) fun _ => .bind (spares_bindParameters h) fun _ =>
      .bind (spares_resultOf type) fun result => .bind (spares_runBody h hahead result) fun _ =>
        .bind (.valueOf type) fun value => .bind (.note _ _) fun _ => .pure value

theorem spares_bindParameter (h : children.Spare ids) :
    Inference.Spares ids (bindParameter node children place) := by
  unfold bindParameter
  split
  · exact .pure ()
  · refine .bind (.declare _ _) fun variable' => ?_
    split
    · split
      · exact .bind ((h.part? _ _ ‹_›).evaluate place) fun value => .flow value variable'
      · exact .pure ()
    · exact .pure ()

/-! ### Expressions -/

theorem spares_nameValue : Inference.Spares ids (nameValue node place) := by
  refine .look (fun _ => rfl) fun found => ?_
  cases found with
  | none => exact .newValue
  | some value => exact .pure value

theorem spares_lastValue (h : children.Spare ids) :
    Inference.Spares ids (lastValue children place) := by
  refine .bind (.mapM fun child hchild => (h.parts child hchild).evaluate place) fun values => ?_
  split
  · exact .pure _
  · exact .newValue

theorem spares_newInstance (name origin : Option String) :
    Inference.Spares ids (growing (·.newObject name origin) >>= valueOf) :=
  .bind (.newObject name origin) fun type => .valueOf type

theorem spares_objectValue (h : children.Spare ids) :
    Inference.Spares ids (objectValue children place) :=
  .bind (.newObject none (some place.file)) fun type =>
    .bind (.forM fun child hchild => (h.parts child hchild).addTo type place) fun _ =>
      .valueOf type

theorem spares_arrayValue (h : children.Spare ids) :
    Inference.Spares ids (arrayValue children place) :=
  .bind (spares_doParts h) fun _ => spares_newInstance (some "Array") (some place.file)

theorem spares_partValue (h : children.Spare ids) (role : Role) :
    Inference.Spares ids (partValue children place role) := by
  unfold partValue
  split
  · exact (h.part? _ _ ‹_›).evaluate place
  · exact .newValue

theorem spares_lookAt (h : children.Spare ids) (role : Role) :
    Inference.Spares ids (lookAt children place role) := by
  unfold lookAt
  split
  · exact .bind ((h.part? _ _ ‹_›).evaluate place) fun _ => .pure ()
  · exact .pure ()

theorem spares_doArguments (h : children.Spare ids) :
    Inference.Spares ids (doArguments children place) := by
  unfold doArguments
  split
  · exact (h.part? _ _ ‹_›).walkParts place
  · exact .pure ()

theorem spares_memberValue (h : children.Spare ids) :
    Inference.Spares ids (memberValue node children place) := by
  refine .bind (spares_partValue h .object) fun object => .bind .newValue fun value => ?_
  dsimp only
  split
  · exact .look (fun _ => rfl) fun store => .bind (.forM fun type _ => .addType value type)
      fun _ => .pure value
  · exact .pure value

theorem spares_callValue (h : children.Spare ids) :
    Inference.Spares ids (callValue children place) := by
  refine .bind (spares_partValue h .callee) fun callee => .bind (spares_doArguments h) fun _ =>
    .bind .newValue fun value => .look (fun _ => rfl) fun store =>
      .bind (.forM fun type _ => .look (fun _ => rfl) fun store => ?_) fun _ => .pure value
  split
  · exact .propagate _ _
  · exact .pure ()

theorem spares_instanceValue (h : children.Spare ids) :
    Inference.Spares ids (instanceValue node children place) :=
  .bind (spares_lookAt h .constructor) fun _ => .bind (spares_doArguments h) fun _ =>
    spares_newInstance _ _

theorem spares_assignmentValue (h : children.Spare ids) :
    Inference.Spares ids (assignmentValue children place) := by
  refine .bind (spares_partValue h .right) fun right => ?_
  dsimp only
  split
  · exact .bind ((h.part? _ _ ‹_›).receive right place) fun _ => .pure right
  · exact .pure right

theorem spares_choiceValue (h : children.Spare ids) :
    Inference.Spares ids (choiceValue children place) := by
  refine .bind (spares_lookAt h .condition) fun _ => .bind .newValue fun value =>
    .bind (.forM fun role _ => ?_) fun _ => .pure value
  split
  · exact .bind ((h.part? _ _ ‹_›).evaluate place) fun branch => .propagate branch value
  · exact .pure ()

theorem spares_valueByKind (h : children.Spare ids)
    (hahead : node.kind.isFunction = true → children.SpareAhead ids) :
    Inference.Spares ids (valueByKind node children place) := by
  have hfunction : node.kind.isFunction = true →
      Inference.Spares ids (function node children place) :=
    fun hkind => spares_function h (hahead hkind)
  unfold valueByKind
  split
  case h_1 | h_2 | h_3 | h_4 | h_5 => exact .valueOf _
  case h_6 => exact spares_nameValue
  case h_7 | h_8 => exact spares_lastValue h
  case h_9 => exact spares_objectValue h
  case h_10 => exact spares_arrayValue h
  case h_11 hkind | h_12 hkind | h_13 hkind => exact hfunction (by rw [hkind]; rfl)
  case h_14 => exact spares_memberValue h
  case h_15 => exact spares_callValue h
  case h_16 => exact spares_instanceValue h
  case h_17 => exact spares_assignmentValue h
  case h_18 => exact spares_choiceValue h
  case h_19 => exact .bind (spares_doParts h) fun _ => .newValue

theorem spares_value (h : children.Spare ids)
    (hahead : node.kind.isFunction = true → children.SpareAhead ids) :
    Inference.Spares ids (value node children place) :=
  .bind (spares_valueByKind h hahead) fun value => .bind (.note node.id value) fun _ => .pure value

/-! ### Statements, members and targets -/

theorem spares_declarator (h : children.Spare ids) :
    Inference.Spares ids (declarator node children place) := by
  have hdeclare : Inference.Spares ids (declareName node place) := by
    unfold declareName
    split
    · exact .declare _ _
    · exact .pure none
  unfold declarator
  split
  · refine .bind hdeclare fun variable' => ?_
    split
    · exact .bind ((h.part? _ _ ‹_›).evaluate place) fun value => .flow value variable'
    · exact .pure ()
  · exact .pure ()

theorem spares_returning (h : children.Spare ids) :
    Inference.Spares ids (returning children place) := by
  unfold returning
  split
  · exact .pure ()
  · rename_i hparts
    exact .bind ((h.parts _ (hparts ▸ List.mem_cons_self)).evaluate place) fun value =>
      .flow value place.result

theorem spares_statement (h : children.Spare ids)
    (hahead : node.kind.isFunction = true → children.SpareAhead ids) :
    Inference.Spares ids (statement node children place) := by
  have hfunction : node.kind.isFunction = true →
      Inference.Spares ids (do let _ ← function node children place) :=
    fun hkind => .bind (spares_function h (hahead hkind)) fun _ => .pure ()
  unfold statement
  split
  case h_1 | h_2 => exact .forM fun child hchild => (h.parts child hchild).declare place
  case h_3 hkind | h_4 hkind => exact hfunction (by rw [hkind]; rfl)
  case h_5 => exact spares_returning h
  case h_6 =>
    split
    · exact .bind (spares_value h hahead) fun _ => .pure ()
    · exact spares_doParts h

theorem spares_fillMember (object : TypeId) (name : String) (source : ValueId) :
    Inference.Spares ids (fillMember object name source) :=
  .bind (.ensureMember object name) fun member => .propagate source member

theorem spares_objectMember (h : children.Spare ids)
    (hahead : node.kind.isFunction = true → children.SpareAhead ids) (object : TypeId) :
    Inference.Spares ids (objectMember node children place object) := by
  unfold objectMember
  split
  case h_1 =>
    split
    · refine .bind ((h.part? _ _ ‹_›).evaluate place) fun value => ?_
      split
      · exact spares_fillMember object _ value
      · exact .pure ()
    · exact .pure ()
  case h_2 =>
    refine .bind (.ensureMember object _) fun member => .look (fun _ => rfl) fun found => ?_
    split
    · exact .propagate _ member
    · exact .pure ()
  case h_3 hkind =>
    refine .bind (spares_function h (hahead (by rw [hkind]; rfl))) fun value => ?_
    split
    · exact spares_fillMember object _ value
    · exact .pure ()
  case h_4 => exact spares_statement h hahead

theorem spares_assignedVariable (name : String) :
    Inference.Spares ids (assignedVariable place name) := by
  refine .look (fun _ => rfl) fun found => ?_
  cases found with
  | some value => exact .pure _
  | none =>
    refine .look (fun _ => rfl) fun run => ?_
    split
    · exact .declare _ name
    · exact .pure none

theorem spares_target (h : children.Spare ids)
    (hahead : node.kind.isFunction = true → children.SpareAhead ids) (right : ValueId) :
    Inference.Spares ids (target node children place right) := by
  unfold target
  split
  case h_1 =>
    refine .bind (spares_assignedVariable _) fun found => ?_
    split
    · exact .bind (.propagate right _) fun _ => .note _ _
    · exact .pure ()
  case h_2 =>
    split
    · exact .pure ()
    · refine .bind ((h.part? _ _ ‹_›).evaluate place) fun object => ?_
      split
      · exact .pure ()
      · refine .look (fun _ => rfl) fun store => .forM fun type _ => ?_
        refine .look (fun _ => rfl) fun _ => ?_
        split
        · exact spares_fillMember type _ right
        · exact .pure ()
  case h_3 => exact spares_statement h hahead

theorem spares_make (h : children.Spare ids)
    (hahead : node.kind.isFunction = true → children.SpareAhead ids) :
    (make node children).Spares ids where
  walkParts _ := spares_doParts h
  walk _ := spares_statement h hahead
  evaluate _ := spares_value h hahead
  declare _ := spares_declarator h
  addTo object _ := spares_objectMember h hahead object
  bind _ := spares_bindParameter h
  bindParts _ := spares_bindEach h
  receive right _ := spares_target h hahead right

end Meaning

/-! ### Nodes -/

variable {node : Node}

/-- Declaring ahead what is in a node spares nodes that are not in it. -/
theorem spares_hoist (h : ∀ inner, node.Inside inner → ¬ids inner.id) (place : Place) :
    Spares ids ((meaning node).hoist place) := by
  induction node using Node.induction generalizing place with
  | step node ih =>
    rw [meaning_eq]
    refine Meaning.spares_hoistParts (fun child hchild => ?_) fun child hchild place => ?_
    · exact h child ⟨child, hchild, child.self_mem_nodes⟩
    · exact ih child (Node.mem_children_of_mem_parts hchild)
        (fun inner hinner => h inner ⟨child, hchild, hinner.mem_nodes⟩) place

/-- The nodes are outside of all functions in a tree. -/
def Outside (ids : Nat → Prop) (node : Node) : Prop :=
  ∀ function ∈ node.nodes, function.kind.isFunction = true →
    ∀ inner, function.Inside inner → ¬ids inner.id

theorem Outside.of_mem_parts {child : Node} (h : Outside ids node) (hchild : child ∈ node.parts) :
    Outside ids child :=
  fun function hfunction => h function (Node.Inside.mem_nodes ⟨child, hchild, hfunction⟩)

theorem Meaning.spare_family (haside : Aside node)
    (h : ∀ child ∈ node.parts, (meaning child).Spares ids) : (family node).Spare ids where
  parts item hitem := by
    rw [parts_family] at hitem
    obtain ⟨child, hchild, rfl⟩ := List.mem_map.1 hitem
    exact h child hchild
  part? role item hitem := by
    rw [part?_family] at hitem
    obtain ⟨child, hchild, rfl⟩ := Option.map_eq_some_iff.1 hitem
    exact h child (Node.mem_parts_of_part? haside hchild)

/-- A node spares what is outside of all functions in it. -/
theorem spares_meaning (haside : Aside node) (h : Outside ids node) :
    (meaning node).Spares ids := by
  induction node using Node.induction with
  | step node ih =>
    have hpart : ∀ child ∈ node.parts, (meaning child).Spares ids := fun child hchild =>
      have hmem := Node.mem_children_of_mem_parts hchild
      ih child hmem (haside.of_mem hmem) (h.of_mem_parts hchild)
    rw [meaning_eq]
    refine Meaning.spares_make (Meaning.spare_family haside hpart) fun hkind item hitem place => ?_
    rw [Meaning.part?_family] at hitem
    obtain ⟨body, hbody, rfl⟩ := Option.map_eq_some_iff.1 hitem
    have hmem := Node.mem_parts_of_part? haside hbody
    exact spares_hoist (fun inner hinner =>
      h node node.self_mem_nodes hkind inner ⟨body, hmem, hinner.mem_nodes⟩) place

/-- Whatever a node does, nothing is taken out of the store. -/
theorem advancing_meaning (haside : Aside node) : (meaning node).Spares fun _ => False :=
  spares_meaning haside fun _ _ _ _ _ h => h

end Capabilities.Inference
