/-!
# Directory trees

A `Tree` is a file or a folder of named trees. The text of a file is missing if its bytes are no
UTF-8. Names are in no particular order; whoever needs one sorts.
-/

namespace Capabilities.Workspace

inductive Tree where
  | file (text : Option String)
  | folder (children : List (String × Tree))
deriving Repr, Inhabited

namespace Tree

def empty : Tree := .folder []

def children? : Tree → Option (List (String × Tree))
  | .file _ => none
  | .folder children => some children

def text? : Tree → Option String
  | .file text => text
  | .folder _ => none

def child? (tree : Tree) (name : String) : Option Tree := tree.children?.bind (·.lookup name)

def at? (tree : Tree) (place : List String) : Option Tree := place.foldlM child? tree

/-- Put a tree at a place. Folders on the way are made; a file on the way gives way to one. -/
def put : Tree → List String → Tree → Tree
  | _, [], new => new
  | old, name :: place, new =>
    let children := old.children?.getD []
    let child := put ((children.lookup name).getD empty) place new
    .folder (children.filter (·.1 != name) ++ [(name, child)])

end Tree

end Capabilities.Workspace
