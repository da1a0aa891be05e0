import Capabilities.Json.Reader
import Capabilities.Text.Quoted

/-!
# Settings of the resolver

A `Config` says where modules live and how their entry functions are named. Settings that a
configuration file leaves out have defaults. `Config.modulesRoot?` cuts the directory that holds
the modules directory out of a module's path.
-/

namespace Capabilities.Resolver

open Json

/-- The settings. `modulesDir` is the directory that all modules live under, `moduleExtension` is
    put behind the paths of the path table, and `consumerEntry` is the entry function whose imports
    are bound. -/
structure Config where
  pluginName : String
  modulesDir : String
  moduleExtension : String
  entryNames : List String
  consumerEntry : String
deriving DecidableEq, Repr

inductive ConfigError where
  | modulesDir (given : String)
  | noEntryNames
deriving DecidableEq, Repr

def ConfigError.message : ConfigError → String
  | .modulesDir given =>
    "Configuration error: modules_dir must be a single directory name, got " ++ Text.quoted given
  | .noEntryNames => "Configuration error: entry_names must not be empty"

namespace Config

def default : Config :=
  { pluginName := "architect_resolver"
    modulesDir := "plugins"
    moduleExtension := ".js"
    entryNames := ["main", "plugin"]
    consumerEntry := "main" }

instance : Inhabited Config := ⟨default⟩

/-- Check the settings: the modules directory is the name of one directory, and there is a name
    for entry functions. -/
def validate (config : Config) : Except ConfigError Unit :=
  if config.modulesDir.isEmpty || config.modulesDir.toList.contains '/' then
    .error (.modulesDir config.modulesDir)
  else if config.entryNames.isEmpty then .error .noEntryNames
  else .ok ()

/-- Read settings. What is left out has its default. -/
def ofJson? (value : Value) : Option Config := do
  let names := ["plugin_name", "modules_dir", "module_extension", "entry_names", "consumer_entry"]
  match ← value.fields? names with
  | [pluginName, modulesDir, moduleExtension, entryNames, consumerEntry] =>
    return {
      pluginName := ← orDefault pluginName Value.text? default.pluginName
      modulesDir := ← orDefault modulesDir Value.text? default.modulesDir
      moduleExtension := ← orDefault moduleExtension Value.text? default.moduleExtension
      entryNames := ← orDefault entryNames (Value.items? Value.text?) default.entryNames
      consumerEntry := ← orDefault consumerEntry Value.text? default.consumerEntry }
  | _ => failure
where
  orDefault {α : Type} (field : Option Value) (read : Value → Option α) (value : α) : Option α :=
    match field with
    | some field => read field
    | none => some value

/-! ### The modules root -/

/-- Cut a path behind the last slash that `marker` follows, where no line feed stands before it.
    `seen` is what was passed, last character first. -/
def rootFrom? (marker : List Char) (seen : List Char) : List Char → Option (List Char)
  | [] => none
  | c :: rest =>
    if c == '\n' then none
    else
      match rootFrom? marker (c :: seen) rest with
      | some root => some root
      | none => if c == '/' && marker.isPrefixOf rest then some (c :: seen).reverse else none

/-- What follows the root in a module's path: the modules directory and a slash. -/
def marker (config : Config) : List Char := config.modulesDir.toList ++ ['/']

/-- The directory that holds the modules directory of a module, with a slash at its end: the path
    up to the last place where the modules directory follows. -/
def modulesRoot? (config : Config) (path : String) : Option String :=
  (rootFrom? config.marker [] path.toList).map String.ofList

end Config

end Capabilities.Resolver
