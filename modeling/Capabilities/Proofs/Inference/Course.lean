import Capabilities.Inference.File
import Capabilities.Proofs.Inference.Discipline
import Capabilities.Proofs.Types.Chains

/-!
# The course of a script

What inference does to the scopes of a file, and which nodes it notes, does not depend on the types
it finds: the *course* of a script lists these acts in the order in which they are done. In each
position a construct contributes its own acts and the courses of its parts, so a course is read off
the tree; `Spot` says in which scope this is done, and which names the scopes around have by then
in any case, wherever these are declared: the own name of a function, what its parameters declare,
and what is declared ahead of its body.

`Performed` says that a run has done a list of acts. Whatever is done to scopes lasts.
-/

namespace Capabilities.Inference

open Script Capabilities.Types

/-! ### Acts -/

/-- A scope around a spot, with the names it has got before anything is done there. -/
structure Frame where
  scope : ScopeId
  ahead : List String
deriving DecidableEq, Repr

/-- Where something is done: the scope, and the frames from the inside out. -/
structure Spot where
  scope : ScopeId
  frames : List Frame
deriving DecidableEq, Repr

/-- What a run does to scopes, and what it notes. -/
inductive Act where
  /-- A function makes its scope. -/
  | opens (scope parent : ScopeId)
  /-- A name is declared in a scope. -/
  | declares (scope : ScopeId) (name : String)
  /-- The value of a node is noted. -/
  | notes (id : Nat)
  /-- A name receives the value of an expression, and is noted with its variable. -/
  | assigns (source : Option Node) (left : Node) (spot : Spot)

def Act.noted? : Act → Option Nat
  | .notes id => some id
  | .assigns _ left _ => some left.id
  | _ => none

def Act.nameIn? (scope : ScopeId) : Act → Option String
  | .declares owner name => if owner = scope then some name else none
  | _ => none

def namesIn (scope : ScopeId) (acts : List Act) : List String := acts.filterMap (·.nameIn? scope)

/-- The spot in a scope inside, in which acts have been done already. -/
def Spot.enter (spot : Spot) (scope : ScopeId) (acts : List Act) : Spot :=
  ⟨scope, ⟨scope, namesIn scope acts⟩ :: spot.frames⟩

/-- The positions in which a construct may stand. -/
inductive Position where
  | hoist
  | walkParts
  | walk
  | evaluate
  | declare
  | addTo
  | bind
  | bindParts
  | receive (source : Option Node)

/-- The acts of a construct, by its position and the spot it stands in. -/
abbrev Course := Position → Spot → List Act

namespace Course

abbrev Children := List (Node × Course)

variable (node : Node) (children : Children) (position : Position) (spot : Spot)

/-! ### The courses of constructs -/

def part (role : Role) : List Act :=
  match children.find? (·.1.role == some role) with
  | some (_, course) => course position spot
  | none => []

def each : List Act :=
  (children.filter (!·.1.isComment)).flatMap fun (_, course) => course position spot

def declaring (name : Option String) : List Act := name.toList.map (.declares spot.scope)

def hoistingOf (child : Node × Course) : List Act :=
  match child.1.kind with
  | .functionDeclaration | .generatorFunctionDeclaration =>
    declaring spot (child.1.nameOf? .name)
  | .variableDeclaration =>
    child.1.parts.flatMap fun declarator => declaring spot (declarator.nameOf? .name)
  | .classDeclaration | .classExpression => []
  | kind => if kind.isFunction then [] else child.2 .hoist spot

def hoisting : List Act := (children.filter (!·.1.isComment)).flatMap (hoistingOf spot)

def parameters : List Act :=
  match children.find? (·.1.role == some .parameter) with
  | some (_, course) => course .bind spot
  | none => part children .bindParts spot .parameters

def body (before : List Act) : List Act :=
  match children.find? (·.1.role == some .body) with
  | some (body, course) =>
    if body.kind == .statementBlock then
      let ahead := course .hoist (spot.enter node.id before)
      ahead ++ course .walkParts (spot.enter node.id (before ++ ahead))
    else course .evaluate (spot.enter node.id before)
  | none => []

def ownName : Option String :=
  if node.kind.isFunctionDeclaration then none else node.nameOf? .name

def function : List Act :=
  let opening := .opens node.id spot.scope :: (ownName node).toList.map (.declares node.id)
  let bound := opening ++ parameters children (spot.enter node.id opening)
  bound ++ body node children spot bound ++ [.notes node.id]

def parameter : List Act :=
  match node.parameterName? with
  | none => []
  | some name =>
    .declares spot.scope name ::
      if node.kind == .assignmentPattern then part children .evaluate spot .right else []

def valueByKind : List Act :=
  match node.kind with
  | .number | .string | .templateString | .trueLiteral | .falseLiteral | .identifier => []
  | .parenthesizedExpression | .sequenceExpression => each children .evaluate spot
  | .object => each children .addTo spot
  | .array => each children .walk spot
  | .functionExpression | .generatorFunction | .arrowFunction => function node children spot
  | .memberExpression => part children .evaluate spot .object
  | .callExpression =>
    part children .evaluate spot .callee ++ part children .walkParts spot .arguments
  | .newExpression =>
    part children .evaluate spot .constructor ++ part children .walkParts spot .arguments
  | .assignmentExpression =>
    part children .evaluate spot .right ++
      part children (.receive (node.part? .right)) spot .left
  | .ternaryExpression =>
    part children .evaluate spot .condition ++ part children .evaluate spot .consequence ++
      part children .evaluate spot .alternative
  | _ => each children .walk spot

def value : List Act := valueByKind node children spot ++ [.notes node.id]

def declarator : List Act :=
  if node.kind == .variableDeclarator then
    declaring spot (node.nameOf? .name) ++ part children .evaluate spot .value
  else []

def returning : List Act :=
  match children.filter (!·.1.isComment) with
  | [] => []
  | (_, course) :: _ => course .evaluate spot

def statement : List Act :=
  match node.kind with
  | .variableDeclaration | .lexicalDeclaration => each children .declare spot
  | .functionDeclaration | .generatorFunctionDeclaration => function node children spot
  | .returnStatement => returning children spot
  | kind => if isExpression kind then value node children spot else each children .walk spot

def objectMember : List Act :=
  match node.kind with
  | .pair => part children .evaluate spot .value
  | .shorthandPropertyIdentifier => []
  | .methodDefinition => function node children spot
  | _ => statement node children spot

def target (source : Option Node) : List Act :=
  match node.kind with
  | .identifier => [.assigns source node spot]
  | .memberExpression => part children .evaluate spot .object
  | _ => statement node children spot

def make : Course
  | .hoist, spot => hoisting children spot
  | .walkParts, spot => each children .walk spot
  | .walk, spot => statement node children spot
  | .evaluate, spot => value node children spot
  | .declare, spot => declarator node children spot
  | .addTo, spot => objectMember node children spot
  | .bind, spot => parameter node children spot
  | .bindParts, spot => each children .bind spot
  | .receive source, spot => target node children spot source

end Course

def course (node : Node) : Course := node.fold Course.make

theorem course_eq (node : Node) :
    course node = Course.make node (node.children.map fun child => (child, course child)) :=
  Node.fold_eq Course.make node

/-- The course of a whole script, once the program has its scope. -/
def scriptCourse (root : Node) : List Act :=
  let ahead := course root .hoist ⟨root.id, []⟩
  ahead ++ course root .walkParts (Spot.enter ⟨root.id, []⟩ root.id ahead)

/-! ### Single steps -/

variable {run next middle last : Run} {acts more : List Act} {act : Act} {spot : Spot}
  {scope : ScopeId} {name : String} {value right : ValueId} {left : Node} {place : Place}

/-- A variable is declared that is there already, or it is new; there is none if there is no such
    scope. -/
theorem eq_ok_of_declare {answer : Option ValueId}
    (h : (declare scope name).run.run run = (.ok answer, next)) :
    run.scopes.get? scope = none ∧ answer = none ∧ next = run ∨
      run.scopes.own? scope name = answer ∧ answer.isSome = true ∧ next = run ∨
      (run.scopes.get? scope).isSome = true ∧ run.scopes.own? scope name = none ∧
        answer = some run.store.newValue.1 ∧
        next = { run with
          scopes := run.scopes.withVariable scope name run.store.newValue.1
          store := run.store.newValue.2 } := by
  have h' : (.ok (run.scopes.declare run.store scope name).1,
      { run with
        scopes := (run.scopes.declare run.store scope name).2.1
        store := (run.scopes.declare run.store scope name).2.2 }) =
      (Except.ok answer, next) := h
  cases hscope : run.scopes.get? scope with
  | none =>
    rw [Scopes.declare_missing _ _ hscope] at h'
    cases h'
    exact Or.inl ⟨rfl, rfl, rfl⟩
  | some found =>
    cases hown : run.scopes.own? scope name with
    | some value =>
      rw [Scopes.declare_present _ hown] at h'
      cases h'
      exact Or.inr (Or.inl ⟨rfl, rfl, rfl⟩)
    | none =>
      rw [Scopes.declare_absent _ hscope hown] at h'
      cases h'
      exact Or.inr (Or.inr ⟨rfl, rfl, rfl, rfl⟩)

/-- What a scope has after a declaration it had before, or it is what was declared. -/
theorem own?_before_declare {answer : Option ValueId} {owner : ScopeId} {key : String}
    (h : (declare scope name).run.run run = (.ok answer, next))
    (hown : (next.scopes.own? owner key).isSome = true) :
    (run.scopes.own? owner key).isSome = true ∨ owner = scope ∧ key = name := by
  rcases eq_ok_of_declare h with ⟨-, -, rfl⟩ | ⟨-, -, rfl⟩ | ⟨hscope, -, -, rfl⟩
  · exact Or.inl hown
  · exact Or.inl hown
  · obtain ⟨found, hfound⟩ := Option.isSome_iff_exists.1 hscope
    rw [Scopes.own?_withVariable name _ hfound] at hown
    split at hown
    · rename_i hnew
      exact Or.inr hnew
    · exact Or.inl hown

/-- A declaration makes no scope. -/
theorem isSome_get?_of_declare {answer : Option ValueId} {other : ScopeId}
    (h : (declare scope name).run.run run = (.ok answer, next)) :
    (next.scopes.get? other).isSome = (run.scopes.get? other).isSome := by
  rcases eq_ok_of_declare h with ⟨-, -, rfl⟩ | ⟨-, -, rfl⟩ | ⟨-, -, -, rfl⟩
  · rfl
  · rfl
  · rw [Scopes.get?_withVariable, Option.isSome_map]

/-- What lasts from one run to a later one. -/
structure Run.Lasts (run next : Run) : Prop where
  scopes : run.scopes.Persist next.scopes
  nested : run.scopes.Nested → next.scopes.Nested
  store : run.store.Advances next.store
  expressions : run.expressions <:+ next.expressions

namespace Run.Lasts

theorem refl (run : Run) : run.Lasts run :=
  ⟨.refl _, id, .refl _, List.suffix_refl _⟩

theorem trans (h : run.Lasts middle) (h' : middle.Lasts next) : run.Lasts next :=
  ⟨h.scopes.trans h'.scopes, fun hnested => h'.nested (h.nested hnested), h.store.trans h'.store,
    h.expressions.trans h'.expressions⟩

end Run.Lasts

theorem lasts_of_declare {answer : Option ValueId}
    (h : (declare scope name).run.run run = (.ok answer, next)) : run.Lasts next := by
  rcases eq_ok_of_declare h with ⟨-, -, rfl⟩ | ⟨-, -, rfl⟩ | ⟨hscope, hnone, -, rfl⟩
  · exact .refl _
  · exact .refl _
  · obtain ⟨found, hfound⟩ := Option.isSome_iff_exists.1 hscope
    exact ⟨.withVariable hfound hnone _, fun hnested => hnested.withVariable hfound hnone _,
      Store.Changes.advances (.single .value), List.suffix_refl _⟩

/-- A variable that was declared is there. -/
theorem own?_of_declare (h : (declare scope name).run.run run = (.ok (some value), next)) :
    next.scopes.own? scope name = some value := by
  rcases eq_ok_of_declare h with ⟨-, hnone, -⟩ | ⟨hown, -, rfl⟩ | ⟨hscope, -, hvalue, rfl⟩
  · cases hnone
  · exact hown
  · obtain ⟨found, hfound⟩ := Option.isSome_iff_exists.1 hscope
    cases hvalue
    exact (Scopes.own?_withVariable name _ hfound scope name).trans (if_pos ⟨rfl, rfl⟩)

/-- A variable is the one that a name stands for, or it is made for the program because there is
    none. -/
inductive Finds (scope : ScopeId) (name : String) (value : ValueId) (run : Run) : Run → Prop
  | present (h : run.scopes.lookup? scope name = some value) : Finds scope name value run run
  | made {root : ScopeId} {next : Run} (hnone : run.scopes.lookup? scope name = none)
      (hroot : run.scopes.root = some root)
      (h : (declare root name).run.run run = (.ok (some value), next)) :
      Finds scope name value run next

/-- A name has received a value: its variable was found and holds the types of the value. -/
structure Receives (left : Node) (scope : ScopeId) (right value : ValueId) (run next : Run) :
    Prop where
  found : ∃ middle store, Finds scope left.lexeme value run middle ∧
    next = { middle with store := store, expressions := (left.id, value) :: middle.expressions } ∧
    Store.Filled value (middle.store.typesOf right) middle.store store
  held : ∀ type ∈ run.store.typesOf right, type ∈ next.store.typesOf value

theorem Finds.lasts (h : Finds scope name value run next) : run.Lasts next := by
  cases h with
  | present h => exact .refl _
  | made _ _ h => exact lasts_of_declare h

theorem Finds.expressions_eq (h : Finds scope name value run next) :
    next.expressions = run.expressions := by
  cases h with
  | present h => rfl
  | made _ _ h => rcases eq_ok_of_declare h with ⟨-, -, rfl⟩ | ⟨-, -, rfl⟩ | ⟨-, -, -, rfl⟩ <;> rfl

theorem Receives.expressions_eq (h : Receives left scope right value run next) :
    next.expressions = (left.id, value) :: run.expressions := by
  obtain ⟨middle, store, hfinds, rfl, -⟩ := h.found
  rw [hfinds.expressions_eq]

theorem Receives.lasts (h : Receives left scope right value run next) : run.Lasts next := by
  obtain ⟨middle, store, hfinds, rfl, hfilled⟩ := h.found
  refine hfinds.lasts.trans ?_
  exact ⟨.refl _, id, hfilled.changes.advances, List.suffix_cons _ _⟩

/-- What is known of scopes at a spot: its scope is registered, and the names that the scopes around
    have got there are declared. -/
structure Spot.Known (spot : Spot) (scopes : Scopes) : Prop where
  nested : scopes.Nested
  scope : (scopes.get? spot.scope).isSome = true
  ahead : ∀ frame ∈ spot.frames, ∀ name ∈ frame.ahead,
    (scopes.own? frame.scope name).isSome = true

theorem Spot.Known.mono (h : spot.Known run.scopes) (hlasts : run.Lasts next) :
    spot.Known next.scopes :=
  ⟨hlasts.nested h.nested, hlasts.scopes.isSome_get? h.scope,
    fun frame hframe name hname => hlasts.scopes.isSome_own? (h.ahead frame hframe name hname)⟩

/-- An assignment to a name is received by a variable. -/
theorem receives_of_receive (hkind : left.kind = .identifier) (hknown : spot.Known run.scopes)
    (hplace : place.scope = spot.scope)
    (h : ((meaning left).receive right place).run.run run = (.ok (), next)) :
    ∃ value, Receives left spot.scope right value run next := by
  obtain ⟨root, hmem, hroot⟩ := hknown.nested.root_of_chain (hknown.nested.chain hknown.scope)
  have hregistered := (hknown.nested.chain hknown.scope).isSome_get? root hmem
  have htarget : (Meaning.target left (left.children.map fun child => (child, meaning child))
      place right).run.run run = (.ok (), next) := by
    rw [meaning_eq] at h
    exact h
  simp only [Meaning.target, hkind] at htarget
  obtain ⟨found, middle, hfound, hrest⟩ := eq_ok_of_bind htarget
  have hfinds : ∃ value, found = some value ∧ Finds spot.scope left.lexeme value run middle := by
    obtain ⟨looked, same, hlook, hfound⟩ := eq_ok_of_bind hfound
    cases hlook
    rw [hplace] at hfound
    cases hlookup : run.scopes.lookup? spot.scope left.lexeme with
    | some value =>
      rw [hlookup] at hfound
      cases hfound
      exact ⟨value, rfl, .present hlookup⟩
    | none =>
      rw [hlookup] at hfound
      obtain ⟨state, same, hstate, hdeclare⟩ := eq_ok_of_bind hfound
      cases hstate
      rw [hroot] at hdeclare
      rcases eq_ok_of_declare hdeclare with ⟨hmissing, -, -⟩ | ⟨-, hsome, -⟩ | ⟨-, -, rfl, -⟩
      · rw [hmissing] at hregistered
        cases hregistered
      · obtain ⟨value, rfl⟩ := Option.isSome_iff_exists.1 hsome
        exact ⟨value, rfl, .made hlookup hroot hdeclare⟩
      · exact ⟨_, rfl, .made hlookup hroot hdeclare⟩
  obtain ⟨value, rfl, hfinds⟩ := hfinds
  obtain ⟨_, filled, hpropagate, hnote⟩ := eq_ok_of_bind hrest
  cases hnote
  obtain ⟨store, hstore, rfl⟩ := eq_ok_of_onStore hpropagate
  refine ⟨value, ⟨middle, store, hfinds, rfl, Store.filled_propagate hstore⟩, fun type htype => ?_⟩
  exact Store.mem_typesOf_of_propagate hstore type (hfinds.lasts.store.mem_typesOf htype)

/-! ### Runs that perform acts -/

/-- A run has done one act. -/
inductive Act.Steps : Act → Run → Run → Prop
  | opens {scope parent : ScopeId} {run : Run} (h : (run.scopes.get? parent).isSome = true) :
      Steps (.opens scope parent) run
        { run with scopes := run.scopes.register scope (some parent) }
  | declares {scope : ScopeId} {name : String} {value : ValueId} {run next : Run}
      (h : (declare scope name).run.run run = (.ok (some value), next)) :
      Steps (.declares scope name) run next
  | notes {id : Nat} {run : Run} (value : ValueId) :
      Steps (.notes id) run { run with expressions := (id, value) :: run.expressions }
  | assigns {source : Option Node} {left : Node} {spot : Spot} {right : ValueId} {place : Place}
      {run next : Run} (hkind : left.kind = .identifier) (hknown : spot.Known run.scopes)
      (hsource : ∀ node ∈ source, run.expressions.head? = some (node.id, right))
      (hplace : place.scope = spot.scope)
      (h : ((meaning left).receive right place).run.run run = (.ok (), next)) :
      Steps (.assigns source left spot) run next

theorem Act.Steps.lasts (h : act.Steps run next) : run.Lasts next := by
  cases h with
  | opens h => exact ⟨.register _ _ _, fun hnested => hnested.register _ h, .refl _,
      List.suffix_refl _⟩
  | declares h => exact lasts_of_declare h
  | notes value => exact ⟨.refl _, id, .refl _, List.suffix_cons _ _⟩
  | assigns hkind hknown _ hplace h =>
    obtain ⟨value, hreceives⟩ := receives_of_receive hkind hknown hplace h
    exact hreceives.lasts

/-- An act notes the node it says, or nothing. -/
theorem Act.Steps.expressions_eq (h : act.Steps run next) :
    next.expressions = run.expressions ∨ ∃ id value, act.noted? = some id ∧
      next.expressions = (id, value) :: run.expressions := by
  cases h with
  | opens _ => exact Or.inl rfl
  | declares h =>
    rcases eq_ok_of_declare h with ⟨-, hnone, -⟩ | ⟨-, -, rfl⟩ | ⟨-, -, -, rfl⟩
    · cases hnone
    · exact Or.inl rfl
    · exact Or.inl rfl
  | notes value => exact Or.inr ⟨_, value, rfl, rfl⟩
  | assigns hkind hknown _ hplace h =>
    obtain ⟨value, hreceives⟩ := receives_of_receive hkind hknown hplace h
    exact Or.inr ⟨_, value, rfl, hreceives.expressions_eq⟩

/-- What a scope has after an act it had before, or the act declared it, or the act assigned to a
    name that stood for nothing and the scope is the root. -/
theorem Act.Steps.own?_before (h : act.Steps run next)
    (hown : (next.scopes.own? scope name).isSome = true) :
    (run.scopes.own? scope name).isSome = true ∨ act = .declares scope name ∨
      run.scopes.root = some scope ∧ ∃ source left spot, act = .assigns source left spot ∧
        left.lexeme = name ∧ run.scopes.lookup? spot.scope name = none := by
  cases h with
  | opens _ => exact Or.inl (Scopes.own?_register .. ▸ hown)
  | declares h =>
    rcases own?_before_declare h hown with hold | ⟨rfl, rfl⟩
    · exact Or.inl hold
    · exact Or.inr (Or.inl rfl)
  | notes value => exact Or.inl hown
  | assigns hkind hknown _ hplace h =>
    obtain ⟨value, hreceives⟩ := receives_of_receive hkind hknown hplace h
    obtain ⟨middle, store, hfinds, rfl, -⟩ := hreceives.found
    cases hfinds with
    | present _ => exact Or.inl hown
    | made hnone hroot h =>
      rcases own?_before_declare h hown with hold | ⟨rfl, rfl⟩
      · exact Or.inl hold
      · exact Or.inr (Or.inr ⟨hroot, _, _, _, rfl, rfl, hnone⟩)

/-- A scope that is there after an act was there before, or the act made it. -/
theorem Act.Steps.get?_before (h : act.Steps run next)
    (hscope : (next.scopes.get? scope).isSome = true) :
    (run.scopes.get? scope).isSome = true ∨ ∃ parent, act = .opens scope parent := by
  cases h with
  | @opens made parent _ _ =>
    by_cases hsame : made = scope
    · exact Or.inr ⟨parent, hsame ▸ rfl⟩
    · rw [Scopes.get?_register_of_ne _ _ hsame] at hscope
      exact Or.inl hscope
  | declares h => exact Or.inl (isSome_get?_of_declare h ▸ hscope)
  | notes value => exact Or.inl hscope
  | assigns hkind hknown _ hplace h =>
    obtain ⟨value, hreceives⟩ := receives_of_receive hkind hknown hplace h
    obtain ⟨middle, store, hfinds, rfl, -⟩ := hreceives.found
    cases hfinds with
    | present _ => exact Or.inl hscope
    | made _ _ h => exact Or.inl (isSome_get?_of_declare h ▸ hscope)

/-- A run has done nothing to scopes, and noted nothing. -/
structure Quiet (run next : Run) : Prop where
  scopes : next.scopes = run.scopes
  expressions : next.expressions = run.expressions
  store : run.store.Advances next.store

theorem Quiet.refl (run : Run) : Quiet run run := ⟨rfl, rfl, .refl _⟩

theorem Quiet.trans (h : Quiet run middle) (h' : Quiet middle next) : Quiet run next :=
  ⟨h'.scopes.trans h.scopes, h'.expressions.trans h.expressions, h.store.trans h'.store⟩

theorem Quiet.lasts (h : Quiet run next) : run.Lasts next := by
  refine ⟨?_, fun hnested => ?_, h.store, [], h.expressions.symm⟩
  · rw [h.scopes]
    exact .refl _
  · rw [h.scopes]
    exact hnested

/-- A run has done acts one after the other, and nothing else to scopes or notes. -/
inductive Performed : Run → List Act → Run → Prop
  | nil {run next : Run} (h : Quiet run next) : Performed run [] next
  | cons {run first second next : Run} {act : Act} {acts : List Act} (hquiet : Quiet run first)
      (hstep : act.Steps first second) (h : Performed second acts next) :
      Performed run (act :: acts) next

namespace Performed

theorem single (h : act.Steps run next) : Performed run [act] next :=
  .cons (.refl run) h (.nil (.refl next))

theorem quiet_left (hquiet : Quiet run middle) (h : Performed middle acts next) :
    Performed run acts next := by
  cases h with
  | nil h => exact .nil (hquiet.trans h)
  | cons h hstep hrest => exact .cons (hquiet.trans h) hstep hrest

theorem quiet_right (h : Performed run acts middle) (hquiet : Quiet middle next) :
    Performed run acts next := by
  induction h with
  | nil h => exact .nil (h.trans hquiet)
  | cons h hstep _ ih => exact .cons h hstep (ih hquiet)

theorem append (h : Performed run acts middle) (h' : Performed middle more next) :
    Performed run (acts ++ more) next := by
  induction h with
  | nil hquiet => exact h'.quiet_left hquiet
  | cons hquiet hstep _ ih => exact .cons hquiet hstep (ih h')

theorem lasts (h : Performed run acts next) : run.Lasts next := by
  induction h with
  | nil h => exact h.lasts
  | cons hquiet hstep _ ih => exact (hquiet.lasts.trans hstep.lasts).trans ih

/-- A run that has done acts has done the first of them, and then the others. -/
theorem of_append (h : Performed run (acts ++ more) next) :
    ∃ middle, Performed run acts middle ∧ Performed middle more next := by
  induction acts generalizing run with
  | nil => exact ⟨run, .nil (.refl run), h⟩
  | cons act acts ih =>
    cases h with
    | cons hquiet hstep hrest =>
      obtain ⟨middle, hfirst, hsecond⟩ := ih hrest
      exact ⟨middle, .cons hquiet hstep hfirst, hsecond⟩

/-- What is noted was noted by one of the acts. -/
theorem exists_steps_of_mem (h : Performed run acts next) {id : Nat}
    (hnoted : (id, value) ∈ next.expressions) :
    (id, value) ∈ run.expressions ∨ ∃ before act behind first second,
      acts = before ++ act :: behind ∧ act.noted? = some id ∧ Performed run before first ∧
      act.Steps first second ∧ second.expressions = (id, value) :: first.expressions ∧
      Performed second behind next := by
  induction h with
  | nil h => exact Or.inl (h.expressions ▸ hnoted)
  | @cons run first second next act acts hquiet hstep hrest ih =>
    rcases ih hnoted with hearlier | ⟨before, other, behind, third, fourth, rfl, hid, hbefore,
      hother⟩
    · rcases hstep.expressions_eq with hsame | ⟨own, held, hown, hlonger⟩
      · exact Or.inl (hquiet.expressions ▸ hsame ▸ hearlier)
      · rw [hlonger] at hearlier
        rcases List.mem_cons.1 hearlier with heq | hearlier
        · cases heq
          exact Or.inr ⟨[], act, acts, first, second, rfl, hown, .nil hquiet, hstep, hlonger, hrest⟩
        · exact Or.inl (hquiet.expressions ▸ hearlier)
    · exact Or.inr ⟨act :: before, other, behind, third, fourth, rfl, hid,
        .cons hquiet hstep hbefore, hother⟩

/-- What a scope has after acts it had before, or one of them declared it, or one of them assigned
    to a name that stood for nothing and the scope is the root. -/
theorem own?_before (h : Performed run acts next)
    (hown : (next.scopes.own? scope name).isSome = true) :
    (run.scopes.own? scope name).isSome = true ∨ .declares scope name ∈ acts ∨
      run.scopes.root = some scope ∧ ∃ before source left spot behind first second,
        acts = before ++ .assigns source left spot :: behind ∧ left.lexeme = name ∧
        first.scopes.lookup? spot.scope name = none ∧ Performed run before first ∧
        (Act.assigns source left spot).Steps first second ∧ Performed second behind next := by
  induction h with
  | nil h => exact Or.inl (h.scopes ▸ hown)
  | @cons run first second next act acts hquiet hstep hrest ih =>
    rcases ih hown with hearlier | hdeclared | ⟨hroot, before, source, left, spot, behind, third,
      fourth, rfl, hname, hnone, hbefore, hassigns, hbehind⟩
    · rcases hstep.own?_before hearlier with hold | rfl | ⟨hroot, source, left, spot, rfl, hname,
        hnone⟩
      · exact Or.inl (hquiet.scopes ▸ hold)
      · exact Or.inr (Or.inl List.mem_cons_self)
      · exact Or.inr (Or.inr ⟨hquiet.scopes ▸ hroot, [], source, left, spot, acts, first, second,
          rfl, hname, hnone, .nil hquiet, hstep, hrest⟩)
    · exact Or.inr (Or.inl (List.mem_cons_of_mem _ hdeclared))
    · rw [(hquiet.lasts.trans hstep.lasts).scopes.root] at hroot
      exact Or.inr (Or.inr ⟨hroot, act :: before, source, left, spot, behind, third, fourth, rfl,
        hname, hnone, .cons hquiet hstep hbefore, hassigns, hbehind⟩)

/-- A scope that is there after acts was there before, or one of them made it. -/
theorem get?_before (h : Performed run acts next)
    (hscope : (next.scopes.get? scope).isSome = true) :
    (run.scopes.get? scope).isSome = true ∨ ∃ parent, .opens scope parent ∈ acts := by
  induction h with
  | nil h => exact Or.inl (h.scopes ▸ hscope)
  | cons hquiet hstep _ ih =>
    rcases ih hscope with hearlier | ⟨parent, hopens⟩
    · rcases hstep.get?_before hearlier with hold | ⟨parent, rfl⟩
      · exact Or.inl (hquiet.scopes ▸ hold)
      · exact Or.inr ⟨parent, List.mem_cons_self⟩
    · exact Or.inr ⟨parent, List.mem_cons_of_mem _ hopens⟩

/-- What an act of a run declares is declared afterwards. -/
theorem isSome_own? (h : Performed run acts next) (hname : .declares scope name ∈ acts) :
    (next.scopes.own? scope name).isSome = true := by
  induction h with
  | nil => cases hname
  | cons _ hstep hrest ih =>
    rcases List.mem_cons.1 hname with hsame | hname
    · subst hsame
      cases hstep with
      | declares hdeclare =>
        refine hrest.lasts.scopes.isSome_own? ?_
        rw [own?_of_declare hdeclare]
        rfl
    · exact ih hname

/-- A scope that an act of a run makes is there afterwards. -/
theorem isSome_get? {parent : ScopeId} (h : Performed run acts next)
    (hopens : .opens scope parent ∈ acts) : (next.scopes.get? scope).isSome = true := by
  induction h with
  | nil => cases hopens
  | cons _ hstep hrest ih =>
    rcases List.mem_cons.1 hopens with hsame | hopens
    · subst hsame
      cases hstep with
      | opens _ =>
        refine hrest.lasts.scopes.isSome_get? ?_
        exact Scopes.isSome_get?_register _ _ _
    · exact ih hopens

end Performed

theorem mem_namesIn_iff : name ∈ namesIn scope acts ↔ .declares scope name ∈ acts := by
  constructor
  · intro h
    obtain ⟨act, hact, hname⟩ := List.mem_filterMap.1 h
    cases act with
    | declares owner other =>
      simp only [Act.nameIn?, Option.ite_none_right_eq_some, Option.some.injEq] at hname
      obtain ⟨rfl, rfl⟩ := hname
      exact hact
    | _ => cases hname
  · intro h
    exact List.mem_filterMap.2 ⟨_, h, if_pos rfl⟩

/-- In a scope inside the names are known that acts have declared in it. -/
theorem Spot.Known.enter (h : spot.Known run.scopes) (hperformed : Performed run acts next)
    (hscope : (next.scopes.get? scope).isSome = true) :
    (spot.enter scope acts).Known next.scopes := by
  have hnext := h.mono hperformed.lasts
  refine ⟨hnext.nested, hscope, fun frame hframe name hname => ?_⟩
  rcases List.mem_cons.1 hframe with rfl | hframe
  · exact hperformed.isSome_own? (mem_namesIn_iff.1 hname)
  · exact hnext.ahead frame hframe name hname

end Capabilities.Inference
