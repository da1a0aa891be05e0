import Capabilities.Keyed

/-!
# Types and the values that hold them

A `Store` is an arena of types and of values. A *value* is a place of a program that can hold
types: a variable, a parameter, a member, an expression. It holds types in the order in which they
came, each once. A *type* is a primitive, an object with named members, or a function with a
result; members and results are values again, so everything is addressed by `TypeId` and `ValueId`,
the positions in the arena. The arena only grows.

Operations that need an id to exist return an error when it does not, together with the store as
they leave it.
-/

namespace Capabilities.Types

/-! ### Contents -/

/-- The position of a type in the arena. -/
structure TypeId where
  index : Nat
deriving DecidableEq, Repr

/-- The position of a value in the arena. -/
structure ValueId where
  index : Nat
deriving DecidableEq, Repr

inductive Primitive where
  | number | string | bool
deriving DecidableEq, Repr

def Primitive.name : Primitive → String
  | .number => "number"
  | .string => "string"
  | .bool => "bool"

/-- An object type: named members in the order in which they were added. `name` is the name of
    its constructor, `origin` the file it was made for. -/
structure ObjectType where
  name : Option String
  members : Keyed ValueId
  doc : Option String
  origin : Option String
deriving DecidableEq, Repr

structure FunctionType where
  name : Option String
  parameters : List String
  result : ValueId
  doc : Option String
  origin : Option String
deriving DecidableEq, Repr

inductive TypeShape where
  | object (type : ObjectType)
  | function (type : FunctionType)
  | primitive (type : Primitive)
deriving DecidableEq, Repr

/-- A value: the types it holds, the members read or written through the value itself, and, if
    set, the exact names that an enumeration of its members reports. -/
structure AbstractValue where
  types : List TypeId
  members : Keyed ValueId
  enumeration : Option (List String)
deriving DecidableEq, Repr

def AbstractValue.empty : AbstractValue := ⟨[], .empty, none⟩

instance : Inhabited AbstractValue := ⟨.empty⟩

inductive StoreError where
  | unknownType (id : TypeId)
  | unknownValue (id : ValueId)
  | notAnObject (id : TypeId)
deriving DecidableEq, Repr

def StoreError.message : StoreError → String
  | .unknownType id => "Unknown type id: " ++ toString id.index
  | .unknownValue id => "Unknown value id: " ++ toString id.index
  | .notAnObject id => "Not an object type: " ++ toString id.index

structure Store where
  types : Array TypeShape
  values : Array AbstractValue
deriving DecidableEq, Repr

namespace Store

/-- The arena that a session begins with: the three primitives and no values. -/
def initial : Store :=
  ⟨#[.primitive .number, .primitive .string, .primitive .bool], #[]⟩

instance : Inhabited Store := ⟨initial⟩

/-! ### Reading -/

def primitive : Primitive → TypeId
  | .number => ⟨0⟩
  | .string => ⟨1⟩
  | .bool => ⟨2⟩

def type? (store : Store) (id : TypeId) : Option TypeShape := store.types[id.index]?

def value? (store : Store) (id : ValueId) : Option AbstractValue := store.values[id.index]?

def object? (store : Store) (id : TypeId) : Option ObjectType :=
  match store.type? id with
  | some (.object type) => some type
  | _ => none

def result? (store : Store) (id : TypeId) : Option ValueId :=
  match store.type? id with
  | some (.function type) => some type.result
  | _ => none

def typesOf (store : Store) (id : ValueId) : List TypeId :=
  ((store.value? id).map AbstractValue.types).getD []

/-- The type a value has held longest. -/
def firstType? (store : Store) (id : ValueId) : Option TypeId := (store.typesOf id).head?

def member? (store : Store) (object : TypeId) (name : String) : Option ValueId :=
  (store.object? object).bind (·.members.get? name)

def memberType? (store : Store) (object : TypeId) (name : String) : Option TypeId :=
  (store.member? object name).bind store.firstType?

def doc? (store : Store) (id : TypeId) : Option String :=
  match store.type? id with
  | some (.object type) => type.doc
  | some (.function type) => type.doc
  | _ => none

/-- Put an item at the end of a list unless it is there already. -/
def insertNew {α : Type} [BEq α] (items : List α) (item : α) : List α :=
  if items.contains item then items else items ++ [item]

/-- The types read through a member of a value: those of the value's own member, then those of
    the member of every object type that the value holds. -/
def lookupMember (store : Store) (id : ValueId) (name : String) : List TypeId :=
  match store.value? id with
  | none => []
  | some value =>
    let own := ((value.members.get? name).map store.typesOf).getD []
    let held := value.types.flatMap fun type =>
      ((store.member? type name).map store.typesOf).getD []
    (own ++ held).foldl insertNew []

/-- The names that an enumeration of a value's members reports: exactly those set for it, if any
    are; else its own members and then those of the object types it holds. -/
def memberNames (store : Store) (id : ValueId) : List String :=
  match store.value? id with
  | none => []
  | some value =>
    match value.enumeration with
    | some names => names
    | none =>
      let held := value.types.flatMap fun type =>
        ((store.object? type).map (·.members.keys)).getD []
      (value.members.keys ++ held).foldl insertNew []

def describe (store : Store) (id : TypeId) : String :=
  match store.type? id with
  | some (.primitive type) => type.name
  | some (.function type) => "fn(" ++ String.intercalate ", " type.parameters ++ ")"
  | some (.object type) =>
    match type.name with
    | some name => name
    | none => "\x7b" ++ String.intercalate ", " type.members.keys ++ "\x7d"
  | none => "?"

/-! ### Growing -/

def pushType (store : Store) (type : TypeShape) : TypeId × Store :=
  (⟨store.types.size⟩, { store with types := store.types.push type })

def newValue (store : Store) : ValueId × Store :=
  (⟨store.values.size⟩, { store with values := store.values.push .empty })

def newObject (store : Store) (name origin : Option String) : TypeId × Store :=
  store.pushType (.object ⟨name, .empty, none, origin⟩)

def newFunction (store : Store) (name : Option String) (parameters : List String)
    (origin : Option String) : TypeId × Store :=
  let (result, store) := store.newValue
  store.pushType (.function ⟨name, parameters, result, none, origin⟩)

/-! ### Changing -/

def modifyValue (store : Store) (id : ValueId) (change : AbstractValue → AbstractValue) : Store :=
  { store with values := store.values.modify id.index change }

def addType (store : Store) (value : ValueId) (type : TypeId) : Except StoreError Bool × Store :=
  if (store.type? type).isNone then (.error (.unknownType type), store)
  else
    match store.value? value with
    | none => (.error (.unknownValue value), store)
    | some held =>
      (.ok (!held.types.contains type),
        store.modifyValue value fun held => { held with types := insertNew held.types type })

/-- Take a type out of a value; whether it was there. The others keep their order. -/
def removeType (store : Store) (value : ValueId) (type : TypeId) :
    Except StoreError Bool × Store :=
  match store.value? value with
  | none => (.error (.unknownValue value), store)
  | some held =>
    (.ok (held.types.contains type),
      store.modifyValue value fun held => { held with types := held.types.filter (· != type) })

/-- Add types to a value one after the other, up to the first refusal. -/
def addTypes (store : Store) (value : ValueId) : List TypeId → Except StoreError Unit × Store
  | [] => (.ok (), store)
  | type :: rest =>
    match store.addType value type with
    | (.ok _, store) => store.addTypes value rest
    | (.error error, store) => (.error error, store)

def propagate (store : Store) (source target : ValueId) : Except StoreError Unit × Store :=
  match store.value? source with
  | none => (.error (.unknownValue source), store)
  | some held => store.addTypes target held.types

/-- A member of an object type; it is added, holding nothing, if it is not there. -/
def ensureMember (store : Store) (object : TypeId) (name : String) :
    Except StoreError ValueId × Store :=
  match store.object? object with
  | none => (.error (.notAnObject object), store)
  | some type =>
    match type.members.get? name with
    | some member => (.ok member, store)
    | none =>
      let (member, store) := store.newValue
      let changed : TypeShape := .object { type with members := type.members.put name member }
      (.ok member, { store with types := store.types.setIfInBounds object.index changed })

/-- The member read or written through a value itself; it is added if it is not there. -/
def valueMember (store : Store) (value : ValueId) (name : String) :
    Except StoreError ValueId × Store :=
  match store.value? value with
  | none => (.error (.unknownValue value), store)
  | some held =>
    match held.members.get? name with
    | some member => (.ok member, store)
    | none =>
      let (member, store) := store.newValue
      (.ok member,
        store.modifyValue value fun held => { held with members := held.members.put name member })

def setEnumeration (store : Store) (value : ValueId) (names : List String) :
    Except StoreError Unit × Store :=
  match store.value? value with
  | none => (.error (.unknownValue value), store)
  | some _ => (.ok (), store.modifyValue value fun held => { held with enumeration := some names })

/-- Document a type. Primitives and unknown types stay as they are. -/
def setDoc (store : Store) (id : TypeId) (doc : String) : Store :=
  { store with
    types := store.types.modify id.index fun type =>
      match type with
      | .object type => .object { type with doc := some doc }
      | .function type => .function { type with doc := some doc }
      | .primitive type => .primitive type }

end Store

end Capabilities.Types
