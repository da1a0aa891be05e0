import Capabilities.Proofs.Inference.Course
import Capabilities.Proofs.Inference.Sparing
import Capabilities.Proofs.Script.Ahead
import Capabilities.Proofs.Types.Territory

/-!
# Declaring ahead

What a body announces is declared in its scope, one announcement after the other: a declarator
gives the scope a variable, and so does a function, whose variable then holds the type that is
made for it. A variable that is there already is kept.
-/

namespace Capabilities.Types.Store

variable (store : Store) (name : Option String) (parameters : List String)
  (origin : Option String)

theorem types_size_newFunction :
    (store.newFunction name parameters origin).2.types.size = store.types.size + 1 :=
  types_size_pushType _

theorem values_size_newFunction :
    (store.newFunction name parameters origin).2.values.size = store.values.size + 1 :=
  values_size_newValue

theorem type?_newFunction (type : TypeId) :
    (store.newFunction name parameters origin).2.type? type =
      if type.index = store.types.size then
        some (.function ⟨name, parameters, ⟨store.values.size⟩, none, origin⟩)
      else store.type? type :=
  type?_pushType _ _ type

theorem value?_newFunction {value : ValueId} (h : value.index < store.values.size) :
    (store.newFunction name parameters origin).2.value? value = store.value? value :=
  (value?_newValue store value).trans (if_neg (Nat.ne_of_lt h))

theorem typesOf_newFunction (value : ValueId) :
    (store.newFunction name parameters origin).2.typesOf value = store.typesOf value :=
  typesOf_newValue value

end Capabilities.Types.Store

namespace Capabilities.Types.Scopes

variable {scopes : Scopes} {scope : Scope} {id other : ScopeId} {name : String}

theorem id_of_get? (h : scopes.get? id = some scope) : scope.id = id := by
  unfold get? at h
  exact beq_iff_eq.1 (List.find?_some (p := fun scope : Scope => scope.id == id) h)

theorem get?_withVariable_of_ne (value : ValueId) (h : other ≠ id) :
    (scopes.withVariable id name value).get? other = scopes.get? other := by
  rw [get?_withVariable]
  cases hother : scopes.get? other with
  | none => rfl
  | some found =>
    rw [Option.map_some, if_neg]
    rw [id_of_get? hother, beq_iff_eq]
    exact h

/-- A new variable comes behind all others of the scope. -/
theorem keys_withVariable (value : ValueId) (h : scopes.get? id = some scope)
    (hnone : scopes.own? id name = none) :
    ((scopes.withVariable id name value).get? id).map (·.declared.keys) =
      some (scope.declared.keys ++ [name]) := by
  have hnew : name ∉ scope.declared.keys := by
    unfold own? at hnone
    rw [h, Option.bind_some] at hnone
    rw [scope.declared.mem_keys_iff, hnone]
    exact Bool.false_ne_true
  rw [get?_withVariable, h, Option.map_some, Option.map_some, if_pos (beq_iff_eq.2 (id_of_get? h)),
    Keyed.keys_put, if_neg hnew]

/-- A variable of the scope is an old one, or it is the one that was made. -/
theorem own?_of_withVariable {key : String} {value held : ValueId}
    (h : scopes.get? id = some scope)
    (hown : (scopes.withVariable id name value).own? id key = some held) :
    scopes.own? id key = some held ∨ key = name ∧ held = value := by
  rw [own?_withVariable name _ h] at hown
  split at hown
  · rename_i hsame
    exact Or.inr ⟨hsame.2, (Option.some.inj hown).symm⟩
  · exact Or.inl hown

end Capabilities.Types.Scopes

namespace Capabilities.Inference

open Script Capabilities.Types

/-- Declare what was announced. -/
def announce (place : Place) : Announcement → Infer Unit
  | .function node => Meaning.hoistFunction place node
  | .declarator node =>
    match node.nameOf? .name with
    | some name => do
      let _ ← Inference.declare place.scope name
    | none => return ()

theorem forM_flatMap {ι κ : Type} (items : List ι) (inner : ι → List κ) (each : κ → Infer Unit) :
    (items.flatMap inner).forM each = items.forM fun item => (inner item).forM each := by
  induction items with
  | nil => rfl
  | cons item rest ih =>
    rw [List.flatMap_cons, List.forM_eq_forM, List.forM_append]
    exact congrArg (List.forM (inner item) each >>= ·) (funext fun _ => ih)

theorem forM_congr {ι : Type} {items : List ι} {each other : ι → Infer Unit}
    (h : ∀ item ∈ items, each item = other item) : items.forM each = items.forM other := by
  induction items with
  | nil => rfl
  | cons item rest ih =>
    have hrest := ih fun later hlater => h later (List.mem_cons_of_mem _ hlater)
    change (each item >>= fun _ => rest.forM each) = (other item >>= fun _ => rest.forM other)
    rw [h item List.mem_cons_self, hrest]

/-- What a body announces is declared in the order of the source: induction on the tree, by what
    becomes of each part. -/
theorem hoist_eq (body : Node) (place : Place) :
    (meaning body).hoist place = body.ahead.forM (announce place) := by
  induction body using Node.induction with
  | step body ih =>
    rw [meaning_eq, Node.ahead_eq, forM_flatMap]
    change Meaning.hoistParts (Meaning.family body) place = _
    unfold Meaning.hoistParts
    rw [Meaning.parts_family, List.forM_eq_forM, List.forM_map]
    refine forM_congr fun part hpart => ?_
    dsimp only [Function.comp_apply]
    by_cases hdeclaration : part.kind.isFunctionDeclaration = true
    · rw [Node.announced_of_declaration hdeclaration]
      have hkind : part.kind = .functionDeclaration ∨
          part.kind = .generatorFunctionDeclaration := by
        revert hdeclaration
        cases part.kind <;> decide
      rcases hkind with hkind | hkind <;> rw [hkind] <;> exact (bind_pure _).symm
    by_cases hvariables : part.kind = .variableDeclaration
    · rw [Node.announced_of_variables hvariables, hvariables, List.forM_eq_forM, List.forM_map]
      rfl
    cases hcloses : part.kind.closes with
    | true =>
      rw [Node.announced_of_closed hcloses (Bool.eq_false_iff.2 hdeclaration) hvariables]
      split
      case h_1 hkind | h_2 hkind => exact absurd (hkind ▸ rfl) hdeclaration
      case h_3 hkind => exact absurd hkind hvariables
      case h_4 | h_5 => rfl
      case h_6 hclass hexpression =>
        have hclasses : part.kind ≠ .classDeclaration ∧ part.kind ≠ .classExpression :=
          ⟨hclass, hexpression⟩
        rw [if_pos]
        · rfl
        · simpa [Kind.closes, hvariables, hclasses] using hcloses
    | false =>
      rw [Node.announced_of_open hcloses, ← ih part (Node.mem_children_of_mem_parts hpart)]
      split
      case h_1 hkind | h_2 hkind => exact absurd (hkind ▸ rfl) hdeclaration
      case h_3 hkind => exact absurd hkind hvariables
      case h_4 hkind | h_5 hkind =>
        rw [hkind] at hcloses
        cases hcloses
      case h_6 =>
        rw [if_neg]
        intro hfunction
        rw [Kind.closes_of_isFunction hfunction] at hcloses
        cases hcloses

/-! ### What a run has got by declaring ahead -/

namespace Run

def names (run : Run) (scope : ScopeId) : List String :=
  ((run.scopes.get? scope).map (·.declared.keys)).getD []

/-- The types that a scope's variable of a name holds; none if there is no such variable. -/
def held (run : Run) (scope : ScopeId) (name : String) : List TypeId :=
  ((run.scopes.own? scope name).map run.store.typesOf).getD []

/-- A scope is there, and its variables have values that are there, each one of its own, and hold
    types that are there. -/
structure Orderly (run : Run) (scope : ScopeId) : Prop where
  registered : (run.scopes.get? scope).isSome = true
  known : ∀ name value, run.scopes.own? scope name = some value →
    value.index < run.store.values.size
  distinct : ∀ name other value, run.scopes.own? scope name = some value →
    run.scopes.own? scope other = some value → name = other
  typed : ∀ name, ∀ type ∈ run.held scope name, type.index < run.store.types.size

variable {run : Run} {scope : ScopeId} {name : String} {value : ValueId}

theorem held_of_own? (h : run.scopes.own? scope name = some value) :
    run.held scope name = run.store.typesOf value := by
  simp [held, h]

theorem held_of_none (h : run.scopes.own? scope name = none) : run.held scope name = [] := by
  simp [held, h]

theorem held_congr {next : Run} (hown : next.scopes.own? scope name = run.scopes.own? scope name)
    (htypes : ∀ value, next.store.typesOf value = run.store.typesOf value) :
    next.held scope name = run.held scope name := by
  unfold held
  rw [hown, funext htypes]

theorem mem_names_iff : name ∈ run.names scope ↔ (run.scopes.own? scope name).isSome = true := by
  unfold names Scopes.own?
  cases run.scopes.get? scope with
  | none => simp
  | some found => exact found.declared.mem_keys_iff name

end Run

/-- A type was made for a declaration: it is named and has parameters as the head says, and its
    result is new, no variable, and holds nothing yet. -/
structure MadeFor (place : Place) (declaration : Node) (type : TypeId) (result : ValueId)
    (run next : Run) : Prop where
  type : next.store.type? type = some (.function ⟨declaration.nameOf? .name,
    declaration.parameterNodes.map fun parameter => parameter.parameterName?.getD "?", result,
    none, some place.file⟩)
  new : run.store.values.size ≤ result.index
  known : result.index < next.store.values.size
  empty : next.store.typesOf result = []
  apart : ∀ name, next.scopes.own? place.scope name ≠ some result

/-- Names were declared in the scope of a place, types were made for declarations, and variables
    got some types in addition; nothing else has changed. -/
structure Hoisted (place : Place) (names : List String) (made : List (Node × TypeId))
    (gains : List (String × TypeId)) (run next : Run) : Prop where
  orderly : next.Orderly place.scope
  names : next.names place.scope = names.foldl Store.insertNew (run.names place.scope)
  kept : ∀ name value, run.scopes.own? place.scope name = some value →
    next.scopes.own? place.scope name = some value
  fresh : ∀ name value, next.scopes.own? place.scope name = some value →
    run.scopes.own? place.scope name = some value ∨ run.store.values.size ≤ value.index
  elsewhere : ∀ scope, scope ≠ place.scope → next.scopes.get? scope = run.scopes.get? scope
  held : ∀ name, next.held place.scope name =
    run.held place.scope name ++ (gains.filter (·.1 = name)).map Prod.snd
  functions : next.functions = (made.map fun entry => (entry.1.id, entry.2)).reverse ++
    run.functions
  expressions : next.expressions = run.expressions
  numbered : made.map Prod.snd =
    (List.range' run.store.types.size made.length).map TypeId.mk
  types_size : next.store.types.size = run.store.types.size + made.length
  old_type : ∀ type, type.index < run.store.types.size →
    next.store.type? type = run.store.type? type
  made : ∀ entry ∈ made, ∃ result, MadeFor place entry.1 entry.2 result run next
  values_le : run.store.values.size ≤ next.store.values.size
  old_value : ∀ value, value.index < run.store.values.size →
    (∀ name, run.scopes.own? place.scope name ≠ some value) →
    next.store.value? value = run.store.value? value

namespace Hoisted

variable {place : Place} {names more : List String} {made later : List (Node × TypeId)}
  {gains further : List (String × TypeId)} {run middle next : Run}

theorem refl (h : run.Orderly place.scope) : Hoisted place [] [] [] run run where
  orderly := h
  names := rfl
  kept _ _ h := h
  fresh _ _ h := Or.inl h
  elsewhere _ _ := rfl
  held _ := (List.append_nil _).symm
  functions := rfl
  expressions := rfl
  numbered := rfl
  types_size := rfl
  old_type _ _ := rfl
  made _ h := absurd h List.not_mem_nil
  values_le := Nat.le_refl _
  old_value _ _ _ := rfl

theorem madeFor_left {declaration : Node} {type : TypeId} {result : ValueId}
    (h : MadeFor place declaration type result run middle)
    (h' : Hoisted place more later further middle next) :
    MadeFor place declaration type result run next where
  type := (h'.old_type type (Store.lt_of_type? h.type)).trans h.type
  new := h.new
  known := Nat.lt_of_lt_of_le h.known h'.values_le
  empty := (Store.typesOf_of_value?_eq (h'.old_value result h.known h.apart)).trans h.empty
  apart name hown := (h'.fresh name result hown).elim (h.apart name)
    (Nat.not_le.2 h.known)

theorem madeFor_right {declaration : Node} {type : TypeId} {result : ValueId}
    (h : Hoisted place names made gains run middle)
    (h' : MadeFor place declaration type result middle next) :
    MadeFor place declaration type result run next :=
  { h' with new := Nat.le_trans h.values_le h'.new }

theorem trans (h : Hoisted place names made gains run middle)
    (h' : Hoisted place more later further middle next) :
    Hoisted place (names ++ more) (made ++ later) (gains ++ further) run next where
  orderly := h'.orderly
  names := by rw [h'.names, h.names, List.foldl_append]
  kept name value hown := h'.kept name value (h.kept name value hown)
  fresh name value hown := by
    rcases h'.fresh name value hown with hmiddle | hnew
    · exact h.fresh name value hmiddle
    · exact Or.inr (Nat.le_trans h.values_le hnew)
  elsewhere scope hscope := (h'.elsewhere scope hscope).trans (h.elsewhere scope hscope)
  held name := by
    rw [h'.held, h.held, List.filter_append, List.map_append, List.append_assoc]
  functions := by
    rw [h'.functions, h.functions, List.map_append, List.reverse_append, List.append_assoc]
  expressions := h'.expressions.trans h.expressions
  numbered := by
    rw [List.map_append, h.numbered, h'.numbered, h.types_size, ← List.map_append,
      List.length_append, List.range'_append_1]
  types_size := by rw [h'.types_size, h.types_size, List.length_append, Nat.add_assoc]
  old_type type hlt := by
    have hle : run.store.types.size ≤ middle.store.types.size :=
      h.types_size ▸ Nat.le_add_right _ _
    exact (h'.old_type type (Nat.lt_of_lt_of_le hlt hle)).trans (h.old_type type hlt)
  made entry hentry := by
    rcases List.mem_append.1 hentry with hentry | hentry
    · obtain ⟨result, hmade⟩ := h.made entry hentry
      exact ⟨result, madeFor_left hmade h'⟩
    · obtain ⟨result, hmade⟩ := h'.made entry hentry
      exact ⟨result, h.madeFor_right hmade⟩
  values_le := Nat.le_trans h.values_le h'.values_le
  old_value value hlt hapart := by
    rw [h'.old_value value (Nat.lt_of_lt_of_le hlt h.values_le), h.old_value value hlt hapart]
    intro name hown
    exact (h.fresh name value hown).elim (hapart name) (Nat.not_le.2 hlt)

/-! ### Single steps -/

/-- A type is made for a declaration and remembered. -/
theorem making (h : run.Orderly place.scope) (node : Node) {type : TypeId} {after : Run}
    (hmake : (functionType place node).run.run run = (.ok type, after))
    (hremember : (remember node.id type).run.run after = (.ok (), next)) :
    Hoisted place [] [(node, type)] [] run next ∧ type = ⟨run.store.types.size⟩ := by
  cases hmake
  cases hremember
  let made := (run.store.newFunction (node.nameOf? .name)
    (node.parameterNodes.map fun parameter => parameter.parameterName?.getD "?")
    (some place.file)).2
  have hsize : made.types.size = run.store.types.size + 1 := Store.types_size_newFunction ..
  have hcount : made.values.size = run.store.values.size + 1 := Store.values_size_newFunction ..
  have htypes := Nat.le.intro hsize.symm
  have hvalues := Nat.le.intro hcount.symm
  have hheld : ∀ name, Run.held { run with store := made } place.scope name =
      run.held place.scope name :=
    fun _ => Run.held_congr rfl (Store.typesOf_newFunction _ _ _ _)
  refine ⟨?_, rfl⟩
  exact {
    orderly := {
      registered := h.registered
      known := fun name value hown => Nat.lt_of_lt_of_le (h.known name value hown) hvalues
      distinct := h.distinct
      typed := fun name held hmem =>
        Nat.lt_of_lt_of_le (h.typed name held (hheld name ▸ hmem)) htypes }
    names := rfl
    kept := fun _ _ hown => hown
    fresh := fun _ _ hown => Or.inl hown
    elsewhere := fun _ _ => rfl
    held := fun name => (hheld name).trans (List.append_nil _).symm
    functions := rfl
    expressions := rfl
    numbered := rfl
    types_size := hsize
    old_type := fun type hlt => (Store.type?_newFunction ..).trans (if_neg (Nat.ne_of_lt hlt))
    made := by
      intro entry hentry
      obtain rfl := List.mem_singleton.1 hentry
      refine ⟨⟨run.store.values.size⟩, ?_, Nat.le_refl _, ?_, ?_, ?_⟩
      · exact (Store.type?_newFunction ..).trans (if_pos rfl)
      · exact Nat.lt_of_lt_of_eq (Nat.lt_succ_self _) hcount.symm
      · exact (Store.typesOf_newFunction ..).trans (Store.typesOf_fresh _)
      · exact fun name hown => Nat.lt_irrefl _ (h.known name _ hown)
    values_le := hvalues
    old_value := fun value hlt _ => Store.value?_newFunction _ _ _ _ hlt }

/-- A variable is made for a name that the scope has not declared. -/
theorem adding (h : run.Orderly place.scope) {found : Scope} {name : String}
    (hfound : run.scopes.get? place.scope = some found)
    (hnone : run.scopes.own? place.scope name = none) :
    Hoisted place [name] [] [] run { run with
      scopes := run.scopes.withVariable place.scope name run.store.newValue.1
      store := run.store.newValue.2 } := by
  have hcount : run.store.newValue.2.values.size = run.store.values.size + 1 :=
    Store.values_size_newValue
  have hvalues := Nat.le.intro hcount.symm
  have hheld : ∀ other, Run.held { run with
      scopes := run.scopes.withVariable place.scope name run.store.newValue.1
      store := run.store.newValue.2 } place.scope other = run.held place.scope other := by
    intro other
    by_cases hsame : other = name
    · rw [hsame, Run.held_of_none hnone, Run.held_of_own?
        ((Scopes.own?_withVariable name _ hfound place.scope name).trans (if_pos ⟨rfl, rfl⟩))]
      exact (Store.typesOf_newValue _).trans (Store.typesOf_fresh _)
    · exact Run.held_congr ((Scopes.own?_withVariable name _ hfound place.scope other).trans
        (if_neg fun hboth => hsame hboth.2)) Store.typesOf_newValue
  exact {
    orderly := {
      registered := by
        rw [Scopes.get?_withVariable, Option.isSome_map]
        exact h.registered
      known := by
        intro other value hvalue
        rcases Scopes.own?_of_withVariable hfound hvalue with hold | ⟨-, rfl⟩
        · exact Nat.lt_of_lt_of_le (h.known other value hold) hvalues
        · exact Nat.lt_of_lt_of_eq (Nat.lt_succ_self _) hcount.symm
      distinct := by
        intro first second value hfirst hsecond
        rcases Scopes.own?_of_withVariable hfound hfirst with hfirst | ⟨rfl, rfl⟩
        · rcases Scopes.own?_of_withVariable hfound hsecond with hsecond | ⟨-, rfl⟩
          · exact h.distinct first second value hfirst hsecond
          · exact absurd (h.known first _ hfirst) (Nat.lt_irrefl _)
        · rcases Scopes.own?_of_withVariable hfound hsecond with hsecond | ⟨rfl, -⟩
          · exact absurd (h.known second _ hsecond) (Nat.lt_irrefl _)
          · rfl
      typed := fun other type hmem => h.typed other type (hheld other ▸ hmem) }
    names := by
      have hnew : name ∉ run.names place.scope := by
        rw [Run.mem_names_iff, hnone]
        exact Bool.false_ne_true
      have hnames : run.names place.scope = found.declared.keys := by
        unfold Run.names
        rw [hfound]
        rfl
      rw [List.foldl_cons, List.foldl_nil, Store.insertNew, if_neg (by simpa using hnew), hnames]
      unfold Run.names
      rw [Scopes.keys_withVariable _ hfound hnone]
      rfl
    kept := (Scopes.Remain.withVariable hfound hnone _).own place.scope
    fresh := fun other value hvalue =>
      (Scopes.own?_of_withVariable hfound hvalue).imp_right fun ⟨_, hnew⟩ => hnew ▸ Nat.le_refl _
    elsewhere := fun _ hscope => Scopes.get?_withVariable_of_ne _ hscope
    held := fun other => (hheld other).trans (List.append_nil _).symm
    functions := rfl
    expressions := rfl
    numbered := rfl
    types_size := rfl
    old_type := fun _ _ => rfl
    made := fun _ hentry => absurd hentry List.not_mem_nil
    values_le := hvalues
    old_value := fun value hlt _ =>
      (Store.value?_newValue _ value).trans (if_neg (Nat.ne_of_lt hlt)) }

/-- A name is declared; its variable is there afterwards. -/
theorem declaring (h : run.Orderly place.scope) {name : String} {answer : Option ValueId}
    (hdeclare : (Inference.declare place.scope name).run.run run = (.ok answer, next)) :
    Hoisted place [name] [] [] run next ∧
      ∃ value, answer = some value ∧ next.scopes.own? place.scope name = some value := by
  rcases eq_ok_of_declare hdeclare with ⟨hmissing, -, -⟩ | ⟨hown, hsome, rfl⟩ |
    ⟨hscope, hnone, rfl, rfl⟩
  · have hregistered := h.registered
    rw [hmissing] at hregistered
    cases hregistered
  · obtain ⟨value, rfl⟩ := Option.isSome_iff_exists.1 hsome
    refine ⟨{ refl h with names := ?_ }, value, rfl, hown⟩
    refine (Store.insertNew_of_mem (Run.mem_names_iff.2 ?_)).symm
    rw [hown]
    rfl
  · obtain ⟨found, hfound⟩ := Option.isSome_iff_exists.1 hscope
    exact ⟨adding h hfound hnone, _, rfl, own?_of_declare hdeclare⟩

/-- A variable gets a type that no variable of the scope held. -/
theorem gaining (h : run.Orderly place.scope) {name : String} {value : ValueId} {type : TypeId}
    (hown : run.scopes.own? place.scope name = some value)
    (hnew : type ∉ run.held place.scope name)
    (hadd : (addType value type).run.run run = (.ok (), next)) :
    Hoisted place [] [] [(name, type)] run next := by
  obtain ⟨fresh, middle, hstep, hrest⟩ := eq_ok_of_bind hadd
  cases hrest
  obtain ⟨store, hstore, rfl⟩ := eq_ok_of_onStore hstep
  obtain ⟨htype, found, hfound, rfl⟩ := Store.addType_ok hstore
  have hheld : ∀ other, Run.held { run with
        store := run.store.modifyValue value (Store.withType type) } place.scope other =
      run.held place.scope other ++ ([(name, type)].filter (·.1 = other)).map Prod.snd := by
    intro other
    cases hother : run.scopes.own? place.scope other with
    | none =>
      have hne : name ≠ other := by
        rintro rfl
        rw [hown] at hother
        cases hother
      rw [Run.held_of_none hother]
      simp [Run.held, hother, hne]
    | some variable' =>
      rw [Run.held_of_own? hother]
      unfold Run.held
      rw [hother]
      by_cases hsame : other = name
      · subst hsame
        rw [hown] at hother
        cases hother
        rw [Run.held_of_own? hown, Store.typesOf_eq _ hfound] at hnew
        simp [Store.typesOf_modifyValue_self hfound, Store.typesOf_eq _ hfound, Store.withType,
          Store.insertNew, hnew]
      · have hne : variable' ≠ value := by
          rintro rfl
          exact hsame (h.distinct other name _ hother hown)
        simp [Store.typesOf_modifyValue_of_ne hne, Ne.symm hsame]
  exact {
    orderly := {
      registered := h.registered
      known := fun other variable' hvalue => by
        rw [Store.values_size_modifyValue]
        exact h.known other variable' hvalue
      distinct := h.distinct
      typed := by
        intro other held hmem
        rw [hheld] at hmem
        rcases List.mem_append.1 hmem with hold | hgain
        · exact h.typed other held hold
        · obtain ⟨gain, hmember, rfl⟩ := List.mem_map.1 hgain
          obtain rfl := List.mem_singleton.1 (List.mem_filter.1 hmember).1
          exact htype }
    names := rfl
    kept := fun _ _ hvalue => hvalue
    fresh := fun _ _ hvalue => Or.inl hvalue
    elsewhere := fun _ _ => rfl
    held := hheld
    functions := rfl
    expressions := rfl
    numbered := rfl
    types_size := rfl
    old_type := fun _ _ => rfl
    made := fun _ hentry => absurd hentry List.not_mem_nil
    values_le := Nat.le_of_eq (Store.values_size_modifyValue ..).symm
    old_value := by
      intro other _ hapart
      rw [Store.value?_modifyValue, if_neg]
      rintro rfl
      exact hapart name hown }

/-- What the variable of a declared function's name gets. -/
def gain? (entry : Node × TypeId) : Option (String × TypeId) :=
  (entry.1.nameOf? .name).map (·, entry.2)

/-- The types made for a name's declarations, in order. -/
theorem gains_of_name (made : List (Node × TypeId)) (name : String) :
    ((made.filterMap gain?).filter (·.1 = name)).map Prod.snd =
      (made.filter fun entry => entry.1.nameOf? .name = some name).map Prod.snd := by
  induction made with
  | nil => rfl
  | cons entry rest ih =>
    cases hname : entry.1.nameOf? .name with
    | none => simp [gain?, hname, ih]
    | some other => by_cases hsame : other = name <;> simp [gain?, hname, hsame, ih]

/-- What was announced is declared: a function gets a type, and a variable of its name has it from
    then on. -/
theorem announcing (h : run.Orderly place.scope) (item : Announcement)
    (hrun : (announce place item).run.run run = (.ok (), next)) :
    ∃ made, made.map Prod.fst = item.function?.toList ∧
      Hoisted place item.name?.toList made (made.filterMap gain?) run next := by
  cases item with
  | declarator node =>
    refine ⟨[], rfl, ?_⟩
    change Hoisted place (node.nameOf? .name).toList [] [] run next
    dsimp only [announce] at hrun
    cases hname : node.nameOf? .name with
    | none =>
      rw [hname] at hrun
      cases hrun
      exact refl h
    | some name =>
      rw [hname] at hrun
      obtain ⟨answer, after, hdeclare, hrest⟩ := eq_ok_of_bind hrun
      cases hrest
      exact (declaring h hdeclare).1
  | function node =>
    obtain ⟨type, after, hmake, hrun⟩ := eq_ok_of_bind hrun
    obtain ⟨_, remembered, hremember, hrun⟩ := eq_ok_of_bind hrun
    obtain ⟨hmaking, hnumber⟩ := making h node hmake hremember
    refine ⟨[(node, type)], rfl, ?_⟩
    change Hoisted place (node.nameOf? .name).toList [(node, type)]
      (List.filterMap gain? [(node, type)]) run next
    cases hname : node.nameOf? .name with
    | none =>
      rw [hname] at hrun
      cases hrun
      simpa [gain?, hname] using hmaking
    | some name =>
      rw [hname] at hrun
      obtain ⟨answer, declared, hdeclare, hrun⟩ := eq_ok_of_bind hrun
      obtain ⟨hdeclaring, value, rfl, hown⟩ := declaring hmaking.orderly hdeclare
      have hboth := hmaking.trans hdeclaring
      -- the type is newer than whatever the variable held
      have hnew : type ∉ declared.held place.scope name := by
        rw [hboth.held, hnumber]
        intro hmem
        rw [List.append_nil, List.filter_nil, List.map_nil, List.append_nil] at hmem
        exact Nat.lt_irrefl _ (h.typed name _ hmem)
      have hall := hboth.trans (gaining hdeclaring.orderly hown hnew hrun)
      simpa [gain?, hname] using hall

theorem announcingAll (h : run.Orderly place.scope) (items : List Announcement)
    (hrun : (items.forM (announce place)).run.run run = (.ok (), next)) :
    ∃ made, made.map Prod.fst = items.filterMap Announcement.function? ∧
      Hoisted place (items.filterMap Announcement.name?) made (made.filterMap gain?) run next := by
  induction items generalizing run with
  | nil =>
    cases hrun
    exact ⟨[], rfl, refl h⟩
  | cons item rest ih =>
    obtain ⟨_, middle, hfirst, hrest⟩ := eq_ok_of_bind hrun
    obtain ⟨made, hnodes, hhoisted⟩ := announcing h item hfirst
    obtain ⟨later, hlater, hhoisted'⟩ := ih hhoisted.orderly hrest
    refine ⟨made ++ later, ?_, ?_⟩
    · rw [List.map_append, hnodes, hlater]
      cases hfunction : item.function? <;> simp [hfunction]
    · have hboth := hhoisted.trans hhoisted'
      rw [← List.filterMap_append] at hboth
      cases hname : item.name? <;> simpa [hname] using hboth

/-- What a body announces is declared. -/
theorem of_hoist {body : Node} (h : run.Orderly place.scope)
    (hrun : ((meaning body).hoist place).run.run run = (.ok (), next)) :
    ∃ made, made.map Prod.fst = body.ahead.filterMap Announcement.function? ∧
      Hoisted place (body.ahead.filterMap Announcement.name?) made (made.filterMap gain?)
        run next :=
  announcingAll h body.ahead (hoist_eq body place ▸ hrun)

end Hoisted

end Capabilities.Inference
