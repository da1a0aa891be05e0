import Capabilities.Text.Blank
import Capabilities.Workspace.Tree

/-!
# Disks and paths

A `Disk` is a directory tree with a current folder in it. A path is absolute if it begins with a
slash, else it starts at the current folder. It is followed name by name: an empty name and `.`
stay, `..` goes up, any other name goes down, and each of these needs a folder to stand in. So a
path that leaves a file again, or ends in a slash behind one, leads nowhere.
-/

namespace Capabilities.Workspace

def pathNames (path : String) : List String :=
  (Text.split '/' path.toList).map String.ofList

def joinPath (path name : String) : String :=
  if path.toList.getLast? == some '/' then path ++ name else path ++ "/" ++ name

/-- A directory tree with the place of the current folder. -/
structure Disk where
  root : Tree
  current : List String
deriving Repr, Inhabited

namespace Disk

/-- One step from a folder. -/
def step (disk : Disk) (place : List String) (name : String) : Option (List String) := do
  let children ← (← disk.root.at? place).children?
  match name with
  | "" | "." => return place
  | ".." => return place.dropLast
  | name => if (children.lookup name).isSome then return place ++ [name] else failure

def place? (disk : Disk) (path : String) : Option (List String) :=
  if path.isEmpty then none
  else
    let start := if path.toList.head? == some '/' then [] else disk.current
    (pathNames path).foldlM disk.step start

def find? (disk : Disk) (path : String) : Option Tree := (disk.place? path).bind disk.root.at?

def read (disk : Disk) (path : String) : Option String := (disk.find? path).bind Tree.text?

/-- The absolute path of what a path leads to, without detours. -/
def canonical? (disk : Disk) (path : String) : Option String :=
  (disk.place? path).map fun place => place.foldl joinPath "/"

end Disk

end Capabilities.Workspace
