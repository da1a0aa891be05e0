/-!
# JSON values

A `Value` is a JSON text read into a tree. Numbers are kept as they are written. A string whose
escapes leave half of a surrogate pair over is well-formed JSON and denotes no text; it is kept as
`none` and refused only where its text is wanted.

`Value.fields?` and `Value.tagged?` read a value as a record and as a tagged choice. Both forms
may also be written as arrays of their parts in order.
-/

namespace Capabilities.Json

inductive Value where
  | null
  | bool (value : Bool)
  | number (text : String)
  | string (text : Option String)
  | array (items : List Value)
  | object (members : List (Option String × Value))
deriving Repr, Inhabited

namespace Value

def ofString (text : String) : Value := .string (some text)

def ofNat (n : Nat) : Value := .number (toString n)

def ofFields (fields : List (String × Value)) : Value :=
  .object (fields.map fun (key, value) => (some key, value))

def ofOption {α : Type} (encode : α → Value) : Option α → Value
  | some value => encode value
  | none => .null

/-! ### Reading scalars -/

def text? : Value → Option String
  | .string text => text
  | _ => none

def bool? : Value → Option Bool
  | .bool value => some value
  | _ => none

def items? {α : Type} (read : Value → Option α) : Value → Option (List α)
  | .array items => items.mapM read
  | _ => none

/-! ### Reading records -/

def valuesAt (members : List (Option String × Value)) (key : String) : List Value :=
  members.filterMap fun (other, value) => if other == some key then some value else none

/-- The fields of a record by name, each if it is there. An object may hold other members, which
    are passed over, but none of the fields twice; an array holds the fields in order and may be
    shorter. -/
def fields? (names : List String) : Value → Option (List (Option Value))
  | .object members =>
    if members.any (·.1.isNone) then none
    else
      names.mapM fun name =>
        match valuesAt members name with
        | [] => some none
        | [value] => some (some value)
        | _ => none
  | .array items =>
    if items.length ≤ names.length then
      some (names.mapIdx fun index _ => items[index]?)
    else none
  | _ => none

/-! ### Reading choices -/

mutual
/-- Whether all strings in a value have a text. -/
def isSound : Value → Bool
  | .string text => text.isSome
  | .array items => allSound items
  | .object members => membersSound members
  | _ => true
/-- Whether all strings in a list of values have a text. -/
def allSound : List Value → Bool
  | [] => true
  | value :: rest => isSound value && allSound rest
/-- Whether all strings in the members of an object have a text. -/
def membersSound : List (Option String × Value) → Bool
  | [] => true
  | (key, value) :: rest => key.isSome && isSound value && membersSound rest
end

mutual
def depth : Value → Nat
  | .array items => depthOfAll items + 1
  | .object members => depthOfMembers members + 1
  | _ => 0
def depthOfAll : List Value → Nat
  | [] => 0
  | value :: rest => max (depth value) (depthOfAll rest)
def depthOfMembers : List (Option String × Value) → Nat
  | [] => 0
  | (_, value) :: rest => max (depth value) (depthOfMembers rest)
end

/-- How deeply a value may nest that is set aside until its tag is known. -/
def asideLimit : Nat := 126

/-- The tag of a choice: a string, or an object with the tag as its one key and null behind it. -/
def tag? : Value → Option String
  | .string text => text
  | .object [(name, .null)] => name
  | _ => none

/-- A choice written with its tag and its content: the tag's text and the content, if there is
    any. As an array both must be there. Content written before its tag is set aside until the
    tag is known, and must then be sound and not nest too deeply. -/
def tagged? (tag content : String) (value : Value) : Option (String × Option Value) := do
  match value with
  | .object members =>
    let fields ← value.fields? [tag, content]
    match fields with
    | [some name, body] =>
      let first := members.find? fun (key, _) => key == some tag || key == some content
      let aside := (first.map (·.1 == some content)).getD false
      let sound := body.all fun body => body.isSound && body.depth ≤ asideLimit
      if aside && !sound then failure
      return (← name.tag?, body)
    | _ => failure
  | .array [name, body] => return (← name.tag?, some body)
  | _ => failure

end Value

end Capabilities.Json
