import Capabilities.Docs.Description
import Capabilities.Module.Declaration
import Capabilities.Module.Entry
import Capabilities.Resolver.Step

/-!
# What a file provides

An entry function hands what it provides to `register(null, {...})` or freezes the API of its
plugin with `plugin.freezePublicAPI({...})`. `synthesize` finds these calls and registers types
for them:

* a registered object with a key that the file declares (or any object if it declares nothing)
  provides each of its members under the member's own name;
* any other registered object provides, as a whole, the declared capability at its position among
  such objects;
* a frozen object provides the one declared capability, with the documentation of the comment
  before the call. Frozen objects come after registered ones, so they win.
-/

namespace Capabilities.Resolver

open Script Capabilities.Types Capabilities.Module

/-! ### Calls -/

def freezeMethod : String := "freezePublicAPI"

/-- An object literal in a call, with the keys that can be read off. -/
structure ObjectLiteral where
  id : Nat
  keys : List String
deriving DecidableEq, Repr

structure FreezeCall where
  literal : ObjectLiteral
  start : Nat
deriving DecidableEq, Repr

def memberKey? (member : Node) : Option String :=
  match member.kind with
  | .pair => (member.part? .key).bind Node.keyName?
  | .methodDefinition => (member.part? .name).bind Node.keyName?
  | .shorthandPropertyIdentifier => member.keyName?
  | _ => none

def ObjectLiteral.ofNode (node : Node) : ObjectLiteral :=
  ⟨node.id, node.parts.filterMap memberKey?⟩

def argumentLiteral? (call : Node) (position : Nat) : Option ObjectLiteral := do
  let arguments ← call.part? .arguments
  let argument ← arguments.parts[position]?
  if argument.kind == .object then return .ofNode argument else failure

def isRegistration (call : Node) : Bool :=
  match call.part? .callee with
  | some callee => callee.kind == .identifier && callee.lexeme == registerParameter
  | none => false

def isFreeze (call : Node) : Bool :=
  match call.part? .callee with
  | some callee =>
    callee.kind == .memberExpression && callee.nameOf? .property == some freezeMethod
  | none => false

def registration? (call : Node) : Option ObjectLiteral :=
  if isRegistration call then argumentLiteral? call 1 else none

def freeze? (call : Node) : Option FreezeCall :=
  if isFreeze call then (argumentLiteral? call 0).map (⟨·, call.start⟩) else none

/-- All calls in the bodies of entry functions, one entry function after the other. -/
def providerCalls (entries : List Entry) : List Node :=
  entries.flatMap fun entry => (entry.body?.map calls).getD []

/-! ### Provided types -/

/-- A name with the type inferred for it, if there is one. -/
abbrev Member := String × Option TypeId

/-- The members of an object literal with the first type of each, as inference found them. -/
def literalMembers (file : String) (literal : ObjectLiteral) : Resolve (List Member) := do
  let work ← get
  let store := work.program.store
  let object := (work.program.expression? file literal.id).bind store.firstType?
  return literal.keys.map fun key => (key, object.bind (store.memberType? · key))

def providerObject (file : String) (members : List Member) : Resolve TypeId := do
  let object ← Resolve.growing (·.newObject none (some file))
  members.forM fun (name, type) => do
    let member ← Resolve.onStore (·.ensureMember object name)
    match type with
    | some type => Resolve.addType member type
    | none => return ()
  return object

def registerMembers (file : String) (members : List Member) : Resolve Unit :=
  members.forM fun (name, type) =>
    match type with
    | some type => Resolve.remember (·.register name type (some file))
    | none => return ()

/-- Whether a registered object names what it provides: nothing is declared, or it has a declared
    key. -/
def isKeyed (declared : Option (List String)) (literal : ObjectLiteral) : Bool :=
  match declared with
  | none => true
  | some names => literal.keys.any names.contains

/-- Register an object as a whole under the declared name at a position. -/
def registerAt (file : String) (declared : Option (List String)) (position : Nat)
    (members : List Member) : Resolve Unit := do
  match declared.bind (·[position]?) with
  | some name =>
    let object ← providerObject file members
    Resolve.remember (·.register name object (some file))
  | none => Resolve.remember (·.warnFile file (.unattributedRegistration position))

/-- Register objects in order. `position` counts those that do not name what they provide. -/
def registerAll (file : String) (declared : Option (List String)) :
    Nat → List ObjectLiteral → Resolve Unit
  | _, [] => return ()
  | position, literal :: rest => do
    let members ← literalMembers file literal
    if isKeyed declared literal then
      registerMembers file members
      registerAll file declared position rest
    else
      registerAt file declared position members
      registerAll file declared (position + 1) rest

def leadingDoc (file : String) (offset : Nat) : Resolve (Option String) := do
  let comments := (← get).program.commentsBefore file offset
  return comments.getLast?.bind Docs.describe

def registerFrozen (file : String) (declared : Option (List String)) (freeze : FreezeCall) :
    Resolve Unit := do
  match declared with
  | none => Resolve.remember (·.warnFile file .providesUndeclared)
  | some [name] =>
    let members ← literalMembers file freeze.literal
    let object ← providerObject file members
    match ← leadingDoc file freeze.start with
    | some doc => Resolve.growing fun store => ((), store.setDoc object doc)
    | none => pure ()
    Resolve.remember (·.register name object (some file))
  | some names => Resolve.remember (·.warnFile file (.ambiguousFreeze names.length))

/-- Register what a loaded file provides. -/
def synthesize (config : Config) (file : String) : Resolve Unit := do
  match (← get).program.file? file with
  | none => return ()
  | some source =>
    let found := providerCalls (entries config.entryNames source.root)
    let declared := (declaration .provides config.entryNames source.root).names?
    registerAll file declared 0 (found.filterMap registration?)
    (found.filterMap freeze?).forM (registerFrozen file declared)

end Capabilities.Resolver
