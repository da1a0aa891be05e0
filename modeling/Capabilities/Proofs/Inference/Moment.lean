import Capabilities.Proofs.Inference.Literal
import Capabilities.Proofs.Script.Identity

/-!
# What is known while a script is inferred

At every moment of the inference of a script these things hold of the run so far. Every variable
is one that the owner of its scope declares, or it is one of the script that is assigned to. Every
type made for a function has a result that holds only what was found for the expressions that this
function returns. A value noted for such a function holds the function's type first, and a value
noted for an object literal was found by evaluating the literal, and had then just the members
that are read off it if all pairs in it have values.

For which function a type was made is not to be seen in the run, so a moment says it besides.
-/

namespace Capabilities.Inference

open Script Capabilities.Types

/-- A type is held by a value that was noted for an expression which a function returns. -/
def Answered (run : Run) (function : Node) (held : TypeId) : Prop :=
  ∃ answer value, function.Answers answer ∧ (answer.id, value) ∈ run.expressions ∧
    held ∈ run.store.typesOf value

/-- The value of an object literal was found by evaluating it, when the store held no less than
    `base`. The type that was made first then had just the members that are read off the literal,
    and the store has advanced since. -/
def Built (base : Store) (node : Node) (value : ValueId) (store : Store) : Prop :=
  ∃ place before after, base.Advances before.store ∧
    ((meaning node).evaluate place).run.run before = (.ok value, after) ∧
    HasMembers after.store value ⟨before.store.types.size⟩
      (Resolver.ObjectLiteral.ofNode node).keys.eraseDups ∧
    after.store.Advances store

theorem Built.advance {base store next : Store} {node : Node} {value : ValueId}
    (h : Built base node value store) (hadvances : store.Advances next) :
    Built base node value next := by
  obtain ⟨place, before, after, hbefore, hrun, hmembers, hafter⟩ := h
  exact ⟨place, before, after, hbefore, hrun, hmembers, hafter.trans hadvances⟩

/-- What is known of a run on a script, with the functions that types were made for. The run began
    with the store `base`. -/
structure Moment (root : Node) (file : String) (base : Store) where
  run : Run
  owner : TypeId → Option Node
  sound : run.store.Sound (run.locals file)
  grown : base.Advances run.store
  rooted : ∀ scope, run.scopes.root = some scope → scope = root.id
  rightful : ∀ scope name value, run.scopes.own? scope name = some value → root.Rightful scope name
  among : ∀ type function, owner type = some function → function ∈ root.nodes
  owned : ∀ type function, owner type = some function → ∃ result,
    run.store.result? type = some result ∧ ∀ held ∈ run.store.typesOf result,
      Answered run function held
  remembered : ∀ entry ∈ run.functions, ∃ function, owner entry.2 = some function ∧
    function.id = entry.1
  noted : ∀ entry ∈ run.expressions, ∀ parent function, root.Below parent function →
    parent.keeps function = true → function.id = entry.1 →
    ∃ type, run.store.firstType? entry.2 = some type ∧ owner type = some function
  literal : ∀ entry ∈ run.expressions, ∀ node ∈ root.nodes, node.kind = .object →
    Paired node → node.id = entry.1 → Built base node entry.2 run.store

namespace Moment

variable {root parent node function : Node} {file : String} {base : Store}
  {value result : ValueId} {type object : TypeId} {place : Place}

/-- Later a script knows all it knew: the store has advanced, and nothing noted is lost. -/
structure Le (world later : Moment root file base) : Prop where
  store : world.run.store.Advances later.run.store
  owner : ∀ type function, world.owner type = some function → later.owner type = some function
  expressions : world.run.expressions ⊆ later.run.expressions

instance : Preorder (Moment root file base) where
  le := Le
  le_refl world := ⟨.refl _, fun _ _ h => h, fun _ h => h⟩
  le_trans _ _ _ h h' := ⟨h.store.trans h'.store,
    fun type function howner => h'.owner type function (h.owner type function howner),
    fun _ hentry => h'.expressions (h.expressions hentry)⟩

/-! ### What lasts -/

section

variable {world later : Moment root file base}

/-- A value is the result of a type made for a function. -/
def Results (world : Moment root file base) (function : Node) (value : ValueId) : Prop :=
  ∃ type, world.owner type = some function ∧ world.run.store.result? type = some value

/-- A value is there, and it is no function's result. -/
def Free (world : Moment root file base) (value : ValueId) : Prop :=
  value.index < world.run.store.values.size ∧
    ∀ type, world.run.store.result? type ≠ some value

/-- A node stands below a parent where what is done at a place is done: it belongs to the owner of
    the place's scope, and what it returns is returned to the place's result. -/
structure Stands (world : Moment root file base) (parent node : Node) (place : Place) : Prop where
  below : root.Below parent node
  scope : ∃ owner, root.Scoped owner ∧ owner.id = place.scope ∧ owner.Owns parent node
  result : ∀ value, place.result = some value →
    ∃ function, world.Results function value ∧ function.Returns parent node

theorem Results.mono (h : world.Results function value) (hlater : world ≤ later) :
    later.Results function value := by
  obtain ⟨type, howner, hresult⟩ := h
  exact ⟨type, hlater.owner type function howner, hlater.store.result? hresult⟩

theorem Free.mono (h : world.Free value) (hlater : world ≤ later) : later.Free value := by
  refine ⟨Nat.lt_of_lt_of_le h.1 hlater.store.extends.values_le, fun type hresult => ?_⟩
  rcases hlater.store.results type value hresult with hold | hnew
  · exact h.2 type hold
  · exact absurd h.1 (Nat.not_lt.2 hnew)

theorem Stands.mono (h : world.Stands parent node place) (hlater : world ≤ later) :
    later.Stands parent node place := by
  refine ⟨h.below, h.scope, fun value hvalue => ?_⟩
  obtain ⟨function, hresults, hreturns⟩ := h.result value hvalue
  exact ⟨function, hresults.mono hlater, hreturns⟩

theorem free_of_place (at' : Types.Place) (hplace : ∀ type, at' ≠ .result type)
    (h : world.run.store.place? (world.run.locals file) at' = some value) : world.Free value := by
  refine ⟨world.sound.placed at' value h, fun type hresult => hplace type ?_⟩
  exact world.sound.distinct at' (.result type) value h hresult

/-- A new value is no function's result. -/
theorem not_result_of_size (world : Moment root file base) (type : TypeId) :
    world.run.store.result? type ≠ some ⟨world.run.store.values.size⟩ := fun hresult =>
  Nat.lt_irrefl _ (world.sound.placed (.result type) _ hresult)

theorem lt_of_owner (h : world.owner type = some function) :
    type.index < world.run.store.types.size := by
  obtain ⟨result, hresult, -⟩ := world.owned type function h
  obtain ⟨_, htype, -⟩ := Store.type?_of_result? _ hresult
  exact Store.lt_of_type? htype

theorem closed (world : Moment root file base) : world.run.Closed where
  primitives := world.sound.primitive
  held := world.sound.held
  remembered entry hentry := by
    obtain ⟨function, howner, -⟩ := world.remembered entry hentry
    exact lt_of_owner howner

end

/-! ### Moments that follow -/

/-- The moment after changes of the store, in which results only get what is returned to them. -/
def withStore (world : Moment root file base) (next : Store)
    (hchanges : Store.Changes (fun _ _ => False) world.run.store next)
    (hresults : ∀ type function result, world.owner type = some function →
      world.run.store.result? type = some result → ∀ held ∈ next.typesOf result,
        held ∈ world.run.store.typesOf result ∨ Answered world.run function held) :
    Moment root file base where
  run := { world.run with store := next }
  owner := world.owner
  among := world.among
  sound := hchanges.sound world.sound
  grown := world.grown.trans hchanges.advances
  rooted := world.rooted
  rightful := world.rightful
  owned type function howner := by
    obtain ⟨result, hresult, hheld⟩ := world.owned type function howner
    refine ⟨result, hchanges.advances.result? hresult, fun held hmem => ?_⟩
    have hanswered : Answered world.run function held :=
      (hresults type function result howner hresult held hmem).elim (hheld held) id
    obtain ⟨answer, value, hanswer, hnoted, htypes⟩ := hanswered
    exact ⟨answer, value, hanswer, hnoted, hchanges.advances.mem_typesOf htypes⟩
  remembered := world.remembered
  noted entry hentry parent function hbelow hkeeps hid := by
    obtain ⟨type, hfirst, howner⟩ := world.noted entry hentry parent function hbelow hkeeps hid
    exact ⟨type, hchanges.advances.firstType? hfirst, howner⟩
  literal entry hentry node hnode hkind hpaired hid :=
    (world.literal entry hentry node hnode hkind hpaired hid).advance hchanges.advances

theorem le_withStore (world : Moment root file base) {next : Store}
    (hchanges : Store.Changes (fun _ _ => False) world.run.store next) (hresults) :
    world ≤ world.withStore next hchanges hresults :=
  ⟨hchanges.advances, fun _ _ h => h, fun _ h => h⟩

/-- Types may flow into a value that is no result, and into a result what is returned to it. -/
theorem filled {target : ValueId} {types : List TypeId} {next : Store}
    (world : Moment root file base)
    (h : Store.Filled target types world.run.store next)
    (htarget : ∀ type function, world.owner type = some function →
      world.run.store.result? type = some target → ∀ held ∈ types,
        Answered world.run function held) :
    ∃ later, world ≤ later ∧ later.run = { world.run with store := next } := by
  refine ⟨world.withStore next h.changes ?_, world.le_withStore _ _, rfl⟩
  intro type function result howner hresult held hheld
  rcases h.mem_typesOf hheld with hold | ⟨rfl, hnew⟩
  · exact Or.inl hold
  · exact Or.inr (htarget type function howner hresult held hnew)

/-- What flows into a function's result must be held by a value noted for what it returns. -/
theorem filled_result (world : Moment root file base) {source target : ValueId} {next : Store}
    {answer : Node}
    (hresults : world.Results function target) (hanswer : function.Answers answer)
    (hnoted : (answer.id, source) ∈ world.run.expressions)
    (h : Store.Filled target (world.run.store.typesOf source) world.run.store next) :
    ∃ later, world ≤ later ∧ later.run = { world.run with store := next } := by
  refine world.filled h fun type other howner hresult held hheld => ?_
  obtain ⟨own, hown, hsame⟩ := hresults
  have htype : Types.Place.result type = .result own :=
    world.sound.distinct (.result type) (.result own) target hresult hsame
  cases htype
  rw [howner] at hown
  cases hown
  exact ⟨answer, source, hanswer, hnoted, hheld⟩

def withValue (world : Moment root file base) : Moment root file base :=
  world.withStore world.run.store.newValue.2 (.single .value)
    fun _ _ _ _ _ _ hheld => Or.inl (Store.typesOf_newValue _ ▸ hheld)

theorem le_withValue (world : Moment root file base) : world ≤ world.withValue :=
  world.le_withStore _ _

theorem free_newValue (world : Moment root file base) :
    world.withValue.Free world.run.store.newValue.1 := by
  refine ⟨?_, world.not_result_of_size⟩
  change _ < world.run.store.newValue.2.values.size
  rw [Store.values_size_newValue]
  exact Nat.lt_succ_self _

def withNote (world : Moment root file base) (id : Nat) (value : ValueId)
    (hfunction : ∀ parent function, root.Below parent function → parent.keeps function = true →
      function.id = id → ∃ type, world.run.store.firstType? value = some type ∧
        world.owner type = some function)
    (hliteral : ∀ node ∈ root.nodes, node.kind = .object → Paired node → node.id = id →
      Built base node value world.run.store) : Moment root file base where
  run := { world.run with expressions := (id, value) :: world.run.expressions }
  owner := world.owner
  among := world.among
  sound := world.sound
  grown := world.grown
  rooted := world.rooted
  rightful := world.rightful
  owned type function howner := by
    obtain ⟨result, hresult, hheld⟩ := world.owned type function howner
    refine ⟨result, hresult, fun held hmem => ?_⟩
    obtain ⟨answer, found, hanswer, hnoted, htypes⟩ := hheld held hmem
    exact ⟨answer, found, hanswer, List.mem_cons_of_mem _ hnoted, htypes⟩
  remembered := world.remembered
  noted entry hentry := by
    rcases List.mem_cons.1 hentry with rfl | hentry
    · exact hfunction
    · exact world.noted entry hentry
  literal entry hentry := by
    rcases List.mem_cons.1 hentry with rfl | hentry
    · exact hliteral
    · exact world.literal entry hentry

theorem le_withNote (world : Moment root file base) {id : Nat} (hfunction) (hliteral) :
    world ≤ world.withNote id value hfunction hliteral :=
  ⟨.refl _, fun _ _ h => h, List.subset_cons_self _ _⟩

def withFunction (world : Moment root file base) (hfunction : function ∈ root.nodes)
    (name : Option String) (parameters : List String) (origin : Option String) :
    Moment root file base :=
  let next := (world.run.store.newFunction name parameters origin).2
  have hchanges : Store.Changes (fun _ _ => False) world.run.store next :=
    .single (.function name parameters origin)
  have hheld : ∀ value, next.typesOf value = world.run.store.typesOf value :=
    fun value => Store.typesOf_newValue value
  { run := { world.run with store := next }
    owner := fun type =>
      if type.index = world.run.store.types.size then some function else world.owner type
    among := by
      intro type other howner
      split at howner
      · exact Option.some.inj howner ▸ hfunction
      · exact world.among type other howner
    sound := hchanges.sound world.sound
    grown := world.grown.trans hchanges.advances
    rooted := world.rooted
    rightful := world.rightful
    owned := by
      intro type other howner
      split at howner
      · rename_i hnew
        refine ⟨⟨world.run.store.values.size⟩, ?_, fun held hmem => ?_⟩
        · have htype : next.type? type = some (.function
              ⟨name, parameters, ⟨world.run.store.values.size⟩, none, origin⟩) :=
            (Store.type?_pushType _ _ _).trans (if_pos hnew)
          unfold Store.result?
          rw [htype]
        · rw [hheld, Store.typesOf, Store.value?] at hmem
          simp at hmem
      · obtain ⟨result, hresult, hanswered⟩ := world.owned type other howner
        refine ⟨result, hchanges.advances.result? hresult, fun held hmem => ?_⟩
        obtain ⟨answer, found, hanswer, hnoted, htypes⟩ := hanswered held (hheld result ▸ hmem)
        exact ⟨answer, found, hanswer, hnoted, hchanges.advances.mem_typesOf htypes⟩
    remembered := by
      intro entry hentry
      obtain ⟨other, howner, hid⟩ := world.remembered entry hentry
      exact ⟨other, (if_neg (Nat.ne_of_lt (lt_of_owner howner))).trans howner, hid⟩
    noted := by
      intro entry hentry parent other hbelow hkeeps hid
      obtain ⟨type, hfirst, howner⟩ := world.noted entry hentry parent other hbelow hkeeps hid
      exact ⟨type, hchanges.advances.firstType? hfirst,
        (if_neg (Nat.ne_of_lt (lt_of_owner howner))).trans howner⟩
    literal := fun entry hentry node hnode hkind hpaired hid =>
      (world.literal entry hentry node hnode hkind hpaired hid).advance hchanges.advances }

theorem le_withFunction (world : Moment root file base) (hfunction : function ∈ root.nodes)
    (name : Option String) (parameters : List String) (origin : Option String) :
    world ≤ world.withFunction hfunction name parameters origin where
  store := Store.Changes.advances (.single (.function name parameters origin))
  owner _ _ howner := (if_neg (Nat.ne_of_lt (lt_of_owner howner))).trans howner
  expressions _ h := h

/-- The moment after something is done to the scopes that makes no variable. -/
def withScopes (world : Moment root file base) (scopes : Scopes)
    (hroot : ∀ scope, scopes.root = some scope → scope = root.id)
    (hown : ∀ scope name, scopes.own? scope name = world.run.scopes.own? scope name) :
    Moment root file base where
  run := { world.run with scopes := scopes }
  owner := world.owner
  among := world.among
  sound := by
    have hlocals : Run.locals { world.run with scopes := scopes } file = world.run.locals file := by
      funext of
      unfold Run.locals
      rw [hown]
    rw [hlocals]
    exact world.sound
  grown := world.grown
  rooted := hroot
  rightful scope name value h := world.rightful scope name value (hown scope name ▸ h)
  owned := world.owned
  remembered := world.remembered
  noted := world.noted
  literal := world.literal

/-- Only the script makes a scope without one around it. -/
theorem rooted_register (world : Moment root file base) (id : ScopeId) (around : Option ScopeId)
    (h : around = none → id = root.id) (scope : ScopeId)
    (hscope : (world.run.scopes.register id around).root = some scope) : scope = root.id := by
  unfold Scopes.register at hscope
  dsimp only at hscope
  split at hscope
  · rename_i hnone
    rw [Bool.and_eq_true, Option.isNone_iff_eq_none] at hnone
    rw [← h hnone.1]
    exact (Option.some.inj hscope).symm
  · exact world.rooted scope hscope

def withVariable (world : Moment root file base) {scope : ScopeId} {found : Scope} {name : String}
    (hscope : world.run.scopes.get? scope = some found) (hname : root.Rightful scope name) :
    Moment root file base :=
  let scopes := world.run.scopes.withVariable scope name world.run.store.newValue.1
  have hown : ∀ owner other value, scopes.own? owner other = some value →
      world.run.scopes.own? owner other = some value ∨
        (owner = scope ∧ other = name) ∧ value = world.run.store.newValue.1 := by
    intro owner other value hvalue
    rw [Scopes.own?_withVariable name _ hscope] at hvalue
    split at hvalue
    · rename_i hsame
      exact Or.inr ⟨hsame, (Option.some.inj hvalue).symm⟩
    · exact Or.inl hvalue
  { run := { world.run with scopes := scopes, store := world.run.store.newValue.2 }
    owner := world.owner
    among := world.among
    sound := by
      refine world.sound.declare ⟨file, scope, name⟩ ?_
      intro of value hvalue
      unfold Run.locals at hvalue ⊢
      split at hvalue
      · rename_i hfile
        rw [if_pos hfile]
        rcases hown _ _ _ hvalue with hold | ⟨⟨hsame, hother⟩, hnew⟩
        · exact Or.inl hold
        · obtain ⟨_, _, _⟩ := of
          subst hfile hsame hother
          exact Or.inr ⟨rfl, hnew⟩
      · cases hvalue
    grown := world.withValue.grown
    rooted := world.rooted
    rightful := by
      intro owner other value hvalue
      rcases hown owner other value hvalue with hold | ⟨⟨rfl, rfl⟩, -⟩
      · exact world.rightful owner other value hold
      · exact hname
    owned := world.withValue.owned
    remembered := world.withValue.remembered
    noted := world.withValue.noted
    literal := world.withValue.literal }

theorem le_withVariable (world : Moment root file base) {scope : ScopeId} {found : Scope}
    {name : String}
    (hscope : world.run.scopes.get? scope = some found) (hname : root.Rightful scope name) :
    world ≤ world.withVariable hscope hname :=
  ⟨world.le_withValue.store, fun _ _ h => h, fun _ h => h⟩

def withRemembered (world : Moment root file base) (howner : world.owner type = some function) :
    Moment root file base where
  run := { world.run with functions := (function.id, type) :: world.run.functions }
  owner := world.owner
  among := world.among
  sound := world.sound
  grown := world.grown
  rooted := world.rooted
  rightful := world.rightful
  owned := world.owned
  remembered entry hentry := by
    rcases List.mem_cons.1 hentry with rfl | hentry
    · exact ⟨function, howner, rfl⟩
    · exact world.remembered entry hentry
  noted := world.noted
  literal := world.literal

/-! ### Steps -/

variable {world : Moment root file base}

theorem keeps_newValue : Keeps run world newValue Free :=
  .growing fun world _ => ⟨world.withValue, world.le_withValue, rfl, world.free_newValue⟩

theorem keeps_addType (h : world.Free value) :
    Keeps run world (addType value type) fun _ _ => True := by
  refine .addType fun later hlater next hfilled => later.filled hfilled ?_
  intro other function _ hresult
  exact absurd hresult ((h.mono hlater).2 other)

theorem keeps_propagate {source : ValueId} (h : world.Free value) :
    Keeps run world (propagate source value) fun _ _ => True := by
  refine .propagate fun later hlater next hfilled => later.filled hfilled ?_
  intro other function _ hresult
  exact absurd hresult ((h.mono hlater).2 other)

theorem keeps_newObject (name origin : Option String) :
    Keeps run world (growing (·.newObject name origin)) fun _ _ => True :=
  .growing fun world _ => ⟨world.withStore _ (.single (.object name origin))
    fun _ _ _ _ _ _ hheld => Or.inl hheld, world.le_withStore _ _, rfl, trivial⟩

theorem keeps_ensureMember (object : TypeId) (name : String) :
    Keeps run world (ensureMember object name) Free := by
  refine .onStore fun world _ member next hrun => ?_
  obtain ⟨found, hobject, ⟨hname, rfl⟩ | ⟨hname, rfl, rfl⟩⟩ := Store.ensureMember_ok hrun
  · refine ⟨world, le_refl _, rfl, free_of_place (.member object name) (by simp) ?_⟩
    change world.run.store.member? object name = some member
    unfold Store.member?
    rw [hobject]
    exact hname
  · have hchanges : Store.Changes (fun _ _ => False) world.run.store
        (world.run.store.addMember object found name) := .single (.member hobject hname)
    refine ⟨world.withStore _ hchanges fun _ _ _ _ _ held hheld => Or.inl ?_,
      world.le_withStore _ _, rfl, ?_, fun type hresult => ?_⟩
    · rw [Store.typesOf_addMember] at hheld
      exact hheld
    · change _ < (world.run.store.addMember object found name).values.size
      rw [Store.values_size_addMember]
      exact Nat.lt_succ_self _
    · have hplace : (world.run.store.addMember object found name).place? (fun _ => none)
          (.result type) = world.run.store.place? (fun _ => none) (.result type) := by
        rw [Store.place?_addMember hobject, if_neg]
        rintro ⟨⟩
      exact world.not_result_of_size type (hplace.symm.trans hresult)

theorem keeps_functionType (place : Place) (h : function ∈ root.nodes) :
    Keeps run world (functionType place function) fun later type =>
      later.owner type = some function :=
  .growing fun world _ => ⟨world.withFunction h _ _ _, world.le_withFunction h _ _ _, rfl,
    if_pos rfl⟩

/-- A variable of a scope is no function's result. -/
theorem free_of_own? {scope : ScopeId} {name : String}
    (h : world.run.scopes.own? scope name = some value) : world.Free value := by
  refine free_of_place (.ofVariable ⟨file, scope, name⟩) (by simp) ?_
  change world.run.locals file ⟨file, scope, name⟩ = some value
  unfold Run.locals
  rw [if_pos rfl]
  exact h

theorem keeps_declare {scope : ScopeId} {name : String} (h : root.Rightful scope name) :
    Keeps run world (declare scope name) fun later found =>
      ∀ value, found = some value → later.Free value := by
  refine .declare ?_ ?_ ?_
  · rintro later _ value ⟨⟩
  · rintro later value _ hown _ ⟨⟩
    exact free_of_own? hown
  · intro later found _ hscope _
    refine ⟨later.withVariable hscope h, later.le_withVariable hscope h, rfl, ?_⟩
    rintro _ ⟨⟩
    exact later.free_newValue

/-! ### Notes -/

theorem keeps_noteFunction (hids : (root.nodes.map Node.id).Nodup)
    (h : root.Below parent function) (hkeeps : parent.keeps function = true)
    (howner : world.owner type = some function) :
    Keeps run world (do
      let value ← valueOf type
      note function.id value
      return value) fun later value => (function.id, value) ∈ later.run.expressions := by
  intro start hstart value next hrun
  obtain ⟨found, made, hmade, hrest⟩ := eq_ok_of_bind hrun
  cases hrest
  obtain ⟨store, rfl, hvalue, hfilled, htypes⟩ := eq_ok_of_valueOf hmade
  obtain ⟨held, hheld, hstate⟩ := start.withValue.filled hfilled fun other _ _ hresult => by
    rw [hvalue] at hresult
    exact absurd hresult (start.free_newValue.2 other)
  have hbelow := le_trans hstart (le_trans start.le_withValue hheld)
  have hstore : held.run.store = store := congrArg Run.store hstate
  refine ⟨held.withNote function.id value ?_ ?_, le_trans (le_trans start.le_withValue hheld)
    (held.le_withNote _ _), ?_, List.mem_cons_self⟩
  · intro other noted hnoted _ hid
    have hsame := Node.eq_of_id_eq hids hnoted.mem_nodes h.mem_nodes hid
    refine ⟨type, ?_, hsame ▸ hbelow.owner type function howner⟩
    unfold Store.firstType?
    rw [hstore, htypes]
    rfl
  · intro node hnode hkind _ hid
    have hsame := Node.eq_of_id_eq hids hnode h.mem_nodes hid
    have hfunction := Node.isFunction_of_keeps hkeeps
    rw [← hsame, hkind] at hfunction
    cases hfunction
  · change ({ held.run with expressions := _ } : Run) = _
    rw [hstate]
    rfl

/-- A node that is neither a function nor an object literal may be noted with any value. -/
theorem keeps_note (hids : (root.nodes.map Node.id).Nodup) (h : node ∈ root.nodes)
    (hfunction : node.kind.isFunction = false) (hobject : node.kind ≠ .object) :
    Keeps run world (note node.id value)
      fun later _ => (node.id, value) ∈ later.run.expressions := by
  intro start _ answer next hrun
  cases hrun
  refine ⟨start.withNote node.id value ?_ ?_, start.le_withNote _ _, rfl, List.mem_cons_self⟩
  · intro parent function hbelow hkeeps hid
    have hsame := Node.eq_of_id_eq hids hbelow.mem_nodes h hid
    have hkind := Node.isFunction_of_keeps hkeeps
    rw [hsame, hfunction] at hkind
    cases hkind
  · intro literal hliteral hkind _ hid
    exact absurd (Node.eq_of_id_eq hids hliteral h hid ▸ hkind) hobject

/-- The value of an expression is noted. That of a function is noted already, and that of an
    object literal has the members read off it. -/
theorem keeps_noteValue (hplaced : Placed root) (hids : (root.nodes.map Node.id).Nodup)
    (h : node ∈ root.nodes)
    (hvalue : Keeps run world (Meaning.valueByKind node (Meaning.family node) place)
      fun later value => node.kind.isFunction = true → (node.id, value) ∈ later.run.expressions) :
    Keeps run world ((meaning node).evaluate place)
      fun later value => (node.id, value) ∈ later.run.expressions := by
  intro start hstart value next hrun
  have hsteps := hrun
  rw [meaning_eq] at hsteps
  obtain ⟨found, middle, hfound, hnote⟩ := eq_ok_of_bind hsteps
  cases hnote
  obtain ⟨made, hmade, rfl, hnoted⟩ := hvalue start hstart value middle hfound
  refine ⟨made.withNote node.id value ?_ ?_, le_trans hmade (made.le_withNote _ _), rfl,
    List.mem_cons_self⟩
  · intro parent function hbelow hkeeps hid
    have hsame := Node.eq_of_id_eq hids hbelow.mem_nodes h hid
    have hkind := Node.isFunction_of_keeps hkeeps
    exact made.noted _ (hnoted (hsame ▸ hkind)) parent function hbelow hkeeps hid
  · intro literal hliteral hkind hpaired hid
    have hsame := Node.eq_of_id_eq hids hliteral h hid
    rw [← hsame] at hrun
    have hmembers := hasMembers_of_evaluate (hplaced.of_mem_nodes literal hliteral) hpaired hkind
      start.closed hrun
    exact ⟨place, start.run, _, start.grown, hrun, hmembers, .refl _⟩

/-! ### All together -/

/-- Inferring a tree of nodes placed well, with identities, keeps all that is known. -/
def discipline (hplaced : Placed root) (hids : (root.nodes.map Node.id).Nodup) :
    Discipline (Moment root file base) run where
  stands := Stands
  declarable := root.Rightful
  target := Free
  usable _ _ := True
  made world function type := world.owner type = some function
  result := Results
  noted world node value := (node.id, value) ∈ world.run.expressions
  stands_mono hlater h := h.mono hlater
  target_mono hlater h := h.mono hlater
  usable_mono _ h := h
  made_mono hlater h := hlater.owner _ _ h
  result_mono hlater h := h.mono hlater
  below h := ⟨hplaced.of_mem_nodes _ h.below.among, h.below.part⟩
  inner h hkeeps hchild := by
    refine ⟨⟨h.below.mem_nodes, hchild⟩, ?_, fun value hvalue => ?_⟩
    · obtain ⟨owner, hscoped, hid, howns⟩ := h.scope
      exact ⟨owner, hscoped, hid, .inner howns hkeeps hchild⟩
    · obtain ⟨function, hresults, hreturns⟩ := h.result value hvalue
      exact ⟨function, hresults, .inner hreturns hkeeps hchild⟩
  parameter h hkeeps hrole hchild := by
    have hpart := Node.mem_parts_of_part? (hplaced.of_mem_nodes _ h.below.mem_nodes).aside hchild
    refine ⟨⟨h.below.mem_nodes, hpart⟩, ⟨_, .function h.below hkeeps, rfl, .part hpart⟩, ?_⟩
    intro value hvalue
    obtain ⟨function, hresults, hreturns⟩ := h.result value hvalue
    exact ⟨function, hresults, .parameter hreturns hkeeps hrole hchild⟩
  body h hkeeps hresult hchild := by
    have hpart := Node.mem_parts_of_part? (hplaced.of_mem_nodes _ h.below.mem_nodes).aside hchild
    refine ⟨⟨h.below.mem_nodes, hpart⟩, ⟨_, .function h.below hkeeps, rfl, .part hpart⟩, ?_⟩
    rintro value ⟨⟩
    exact ⟨_, hresult, .body hchild⟩
  ownName h hkeeps hdeclared hname :=
    .declared (.function h.below hkeeps) (.own (Node.isFunction_of_keeps hkeeps) hdeclared hname)
  boundName h hkeeps hchild hname :=
    .declared (.function h.below hkeeps) (.parameter hchild hname)
  functionName h hkind hname := by
    obtain ⟨owner, hscoped, hid, howns⟩ := h.scope
    exact hid ▸ .declared hscoped (.function howns hkind hname)
  variableName h hkind hname := by
    obtain ⟨owner, hscoped, hid, howns⟩ := h.scope
    exact hid ▸ .declared hscoped (.variable howns hkind hname)
  assignedName := by
    intro world parent node place scope h hparent hrole hkind hroot
    rw [world.rooted scope hroot]
    exact .assigned (.target h.below hparent hrole hkind)
  declare h := keeps_declare h
  lookup hfound := by
    obtain ⟨owner, hown⟩ := Scopes.exists_own?_of_lookupWithin hfound
    exact free_of_own? hown
  registerScope := fun {_ _ node place} _ => .change fun world _ =>
    ⟨world.withScopes (world.run.scopes.register node.id (some place.scope))
      (world.rooted_register _ _ fun hnone => by cases hnone) (fun _ _ => Scopes.own?_register ..),
      ⟨.refl _, fun _ _ h => h, fun _ h => h⟩, rfl⟩
  newValue := keeps_newValue
  addType h _ := keeps_addType h
  propagate h := keeps_propagate h
  newObject name origin := keeps_newObject name origin
  ensureMember name _ := keeps_ensureMember _ name
  primitive _ := trivial
  held _ := trivial
  functionType h _ := keeps_functionType _ h.below.mem_nodes
  usable_of_made _ := trivial
  remember h := .change fun world hworld =>
    ⟨world.withRemembered (hworld.owner _ _ h), ⟨.refl _, fun _ _ h => h, fun _ h => h⟩, rfl⟩
  remembered := by
    intro world parent node place type h hfound
    obtain ⟨function, howner, hid⟩ := world.remembered _ (mem_of_lookup hfound)
    exact Node.eq_of_id_eq hids (world.among _ _ howner) h.below.mem_nodes hid ▸ howner
  resultOf := by
    intro world function type howner
    obtain ⟨result, hresult, -⟩ := world.owned type function howner
    refine .look (fun _ => rfl) fun later hlater => ?_
    have hlast := hlater.store.result? hresult
    rw [hlast]
    exact .pure fun last hlast' => ⟨type, (le_trans hlater hlast').owner _ _ howner,
      hlast'.store.result? hlast⟩
  answer h hkeeps hbody hkind hnoted hresult := .propagate fun later hlater next hfilled =>
    later.filled_result (hresult.mono hlater) (.body hbody hkind) (hlater.expressions hnoted)
      hfilled
  return' := by
    intro world parent node place child answered h hkind hchild hnoted
    cases hresult : place.result with
    | none => exact .done
    | some result =>
      obtain ⟨function, hresults, hreturns⟩ := h.result result hresult
      exact .propagate fun later hlater next hfilled =>
        later.filled_result (hresults.mono hlater) (.statement hreturns hkind hchild)
          (hlater.expressions hnoted) hfilled
  noteFunction h hkeeps howner := keeps_noteFunction hids h.below hkeeps howner
  noteTarget _ h hkind := (keeps_note hids h.below.mem_nodes (by rw [hkind]; rfl)
    (by rw [hkind]; decide)).trivial
  noteValue h hvalue := keeps_noteValue hplaced hids h.below.mem_nodes hvalue

/-! ### Whole scripts -/

def start (root : Node) (file : String) {store : Store} (h : store.Sound fun _ => none) :
    Moment root file store where
  run := ⟨store, .empty, [], []⟩
  owner _ := none
  among _ _ h := by cases h
  sound := by
    have hlocals : Run.locals ⟨store, .empty, [], []⟩ file = fun _ => none := by
      funext of
      unfold Run.locals
      split <;> rfl
    rw [hlocals]
    exact h
  grown := .refl store
  rooted _ h := by cases h
  rightful _ _ _ h := by cases h
  owned _ _ h := by cases h
  remembered _ h := by cases h
  noted _ h := by cases h
  literal _ h := by cases h

/-- What is known when a script is inferred. -/
theorem of_inferFile {store after : Store} {locals : Variables} {inference : FileInference}
    (hplaced : Placed root) (hids : (root.nodes.map Node.id).Nodup) (hkind : root.kind ≠ .object)
    (hsound : store.Sound locals)
    (h : inferFile file root store = (.ok inference, after)) :
    ∃ world : Moment root file store, world.run.store = after ∧
      world.run.scopes = inference.scopes ∧
      world.run.expressions = inference.expressions := by
  have hbare : store.Sound fun _ => none := hsound.forget fun _ _ hnone => by cases hnone
  have hkeeps : Keeps run (start root file hbare) (inferProgram file root) fun _ _ => True := by
    have hregister : Keeps run (start root file hbare) (registerScope root.id none)
        fun _ _ => True := by
      refine .change fun world _ => ?_
      exact ⟨world.withScopes (world.run.scopes.register root.id none)
        (world.rooted_register root.id none fun _ => rfl) (fun _ _ => Scopes.own?_register ..),
        ⟨.refl _, fun _ _ h => h, fun _ h => h⟩, rfl⟩
    refine hregister.bind fun registered _ _ _ => ?_
    have hinside : (discipline hplaced hids).inside registered root ⟨file, root.id, none⟩ := by
      intro child hchild
      refine ⟨⟨Node.self_mem_nodes root, hchild⟩, ⟨root, .script, rfl, .part hchild⟩, ?_⟩
      rintro value ⟨⟩
    have hmeaning : (meaning root).Disciplined
        (discipline hplaced hids : Discipline (Moment root file store) run) root :=
      meaning_disciplined _ root
    refine .bind (hmeaning.hoist registered _ hinside) fun later _ hlater _ => ?_
    refine hmeaning.walkParts later _ ((discipline hplaced hids).inside_mono hinside hlater)
      hkind
  unfold inferFile at h
  cases houtcome : (inferProgram file root).run.run ⟨store, .empty, [], []⟩ with
  | mk outcome next =>
    rw [houtcome] at h
    cases outcome with
    | error error => cases h
    | ok answer =>
      cases h
      obtain ⟨world, -, hworld, -⟩ :=
        hkeeps (start root file hbare) (le_refl _) answer next houtcome
      rw [← hworld]
      exact ⟨world, rfl, rfl, rfl⟩

end Moment

end Capabilities.Inference
