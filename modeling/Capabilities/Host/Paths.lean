/-!
# Capability keys and the path table

A capability is known in tables by its key: its name behind an underscore, so that no name can
collide with anything else that a table holds. The host's path table maps keys to module paths,
relative to the directory that holds the modules directory and without extension; it is kept in
the order of its keys.
-/

namespace Capabilities.Host

/-! ### Keys -/

/-- The key of a capability, as it is written. -/
structure CapabilityKey where
  text : String
deriving DecidableEq, Repr

namespace CapabilityKey

def mark : Char := '_'

def of (name : String) : CapabilityKey := ⟨String.ofList (mark :: name.toList)⟩

/-- Read a key as it is written. One without the mark is refused. -/
def ofWire? (text : String) : Option CapabilityKey :=
  match text.toList with
  | c :: name => if c == mark then some (of (String.ofList name)) else none
  | [] => none

/-- The name behind the mark; the first byte of the text is taken for it. -/
def name? (key : CapabilityKey) : Option String :=
  match key.text.toList with
  | c :: name => if c.utf8Size == mark.utf8Size then some (String.ofList name) else none
  | [] => none

end CapabilityKey

/-! ### The table -/

/-- The path table, in ascending order of the keys' texts. -/
structure CapabilityPaths where
  entries : List (CapabilityKey × String)
deriving DecidableEq, Repr

namespace CapabilityPaths

def empty : CapabilityPaths := ⟨[]⟩

/-- Put a path at a key among ordered entries, in place of an old one. -/
def putAmong (key : CapabilityKey) (path : String) :
    List (CapabilityKey × String) → List (CapabilityKey × String)
  | [] => [(key, path)]
  | (other, old) :: rest =>
    if key == other then (key, path) :: rest
    else if key.text < other.text then (key, path) :: (other, old) :: rest
    else (other, old) :: putAmong key path rest

def put (paths : CapabilityPaths) (key : CapabilityKey) (path : String) : CapabilityPaths :=
  ⟨putAmong key path paths.entries⟩

def insert (paths : CapabilityPaths) (name path : String) : CapabilityPaths :=
  paths.put (.of name) path

/-- The table of names with their paths; the last path of a name counts. -/
def ofList (entries : List (String × String)) : CapabilityPaths :=
  entries.foldl (fun paths (name, path) => paths.insert name path) .empty

def get? (paths : CapabilityPaths) (name : String) : Option String :=
  paths.entries.lookup (.of name)

def size (paths : CapabilityPaths) : Nat := paths.entries.length

def isEmpty (paths : CapabilityPaths) : Bool := paths.entries.isEmpty

end CapabilityPaths

end Capabilities.Host
