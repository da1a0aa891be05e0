import Capabilities.Host.Paths
import Capabilities.Module.Declaration
import Capabilities.Resolver.Config
import Capabilities.Script.Parser
import Capabilities.Text.Blank

/-!
# Deriving the path table

Where the host gives no path table, one is derived from what the modules declare to provide. A
capability is mapped to its module's path without the modules root and the extension, so that
putting both back gives the path of the module.
-/

namespace Capabilities.Workspace

open Host Capabilities.Module Resolver Script

/-- A path without its modules root and the module extension. -/
def relativePath (config : Config) (root path : String) : String :=
  let below := path.toList.drop root.toList.length
  String.ofList ((Text.dropTrailing? config.moduleExtension.toList below).getD below)

/-- The path table entries of a module: the names it declares to provide, each with its relative
    path. There are none if it lies outside the modules directory, cannot be read or declares
    nothing. -/
def tableEntries [Parser] (config : Config) (read : String → Option String) (path : String) :
    List (String × String) :=
  let found := do
    let root ← config.modulesRoot? path
    let text ← read path
    let names ← (declaration .provides config.entryNames (parse text)).names?
    return names.map fun name => (name, relativePath config root path)
  found.getD []

/-- The path table of modules. Of several that provide one capability the last counts. -/
def deriveTable [Parser] (config : Config) (read : String → Option String)
    (modules : List String) : CapabilityPaths :=
  .ofList (modules.flatMap (tableEntries config read))

end Capabilities.Workspace
