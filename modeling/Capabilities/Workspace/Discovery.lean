import Capabilities.Resolver.Config
import Capabilities.Workspace.Disk

/-!
# Finding modules

A module is a file below the modules directory whose path ends in the module extension. Hidden
names and the directory of installed packages are passed over with everything below them. Modules
are listed in the order of the names of their paths, which decides who wins where two modules
provide one capability.
-/

namespace Capabilities.Workspace

open Resolver

/-- Whether a name is passed over: it begins with a dot, or holds installed packages. -/
def isPassedOver (name : String) : Bool :=
  name.toList.head? == some '.' || name == "node_modules"

mutual
/-- The places of the files below a tree, as far as no name is passed over. -/
def Tree.places : Tree → List (List String)
  | .file _ => [[]]
  | .folder children => placesAmong children
def placesAmong : List (String × Tree) → List (List String)
  | [] => []
  | (name, tree) :: rest =>
    (if isPassedOver name then [] else tree.places.map (name :: ·)) ++ placesAmong rest
end

def pathBelow (root : String) (place : List String) : String := place.foldl joinPath root

def isModulePath (config : Config) (path : String) : Bool :=
  config.moduleExtension.toList.isSuffixOf path.toList
    && Text.holds ('/' :: config.marker) path.toList

/-- Whether a place comes no later than another in the order of their names. -/
def isNoLater (first second : List String) : Bool := !second.lex first

def discover (config : Config) (disk : Disk) (root : String) : List String :=
  match disk.find? root with
  | none => []
  | some tree =>
    let places := tree.places.filter fun place => isModulePath config (pathBelow root place)
    (places.mergeSort isNoLater).map (pathBelow root)

end Capabilities.Workspace
