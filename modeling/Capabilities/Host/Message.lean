import Capabilities.Host.Paths
import Capabilities.Json.Printer
import Capabilities.Json.Reader

/-!
# Messages between a session and its host

A session asks its host for the path table or for the list of inference plugins, and the host
answers. Messages travel as JSON objects with a tag; this module holds the messages and how they
are written and read.
-/

namespace Capabilities.Host

open Json

/-! ### Messages -/

/-- The two things a session asks for. A request carries nothing else. -/
inductive Request where
  | paths | plugins
deriving DecidableEq, Repr

def Request.name : Request → String
  | .paths => "ArchitectPlugins"
  | .plugins => "InferencePlugins"

structure PluginInfo where
  name : String
  enabled : Bool
  path : Option String
deriving DecidableEq, Repr

inductive Reply where
  | paths (table : CapabilityPaths)
  | plugins (list : List PluginInfo)
deriving DecidableEq, Repr

def Reply.request : Reply → Request
  | .paths _ => .paths
  | .plugins _ => .plugins

/-! ### Writing -/

def tagField : String := "type"

def dataField : String := "data"

def Request.tag : Request → String
  | .paths => "architectPlugins"
  | .plugins => "inferencePlugins"

def Request.toJson (request : Request) : Value := .ofFields [(tagField, .ofString request.tag)]

def CapabilityPaths.toJson (paths : CapabilityPaths) : Value :=
  .ofFields (paths.entries.map fun (key, path) => (key.text, .ofString path))

/-- A plugin as JSON. A path that is not known is left out. -/
def PluginInfo.toJson (plugin : PluginInfo) : Value :=
  .ofFields ([("name", .ofString plugin.name), ("enabled", .bool plugin.enabled)]
    ++ plugin.path.toList.map fun path => ("path", .ofString path))

def Reply.toJson : Reply → Value
  | .paths table =>
    .ofFields [(tagField, .ofString "architectPluginsResult"), (dataField, table.toJson)]
  | .plugins list =>
    .ofFields [(tagField, .ofString "inferencePluginsResult"),
      (dataField, .array (list.map PluginInfo.toJson))]

/-! ### Reading -/

def Request.ofJson? (value : Value) : Option Request := do
  let (tag, body) ← value.tagged? tagField dataField
  match body with
  | none | some .null =>
    match tag with
    | "architectPlugins" => return .paths
    | "inferencePlugins" => return .plugins
    | _ => failure
  | _ => failure

/-- Read a path table. Of two entries with one key the last counts. Keys are taken as they are
    written. -/
def CapabilityPaths.ofJson? : Value → Option CapabilityPaths
  | .object members => do
    let entries ← members.mapM fun (key, value) => do return (← key, ← value.text?)
    return entries.foldl (fun paths (key, path) => paths.put ⟨key⟩ path) .empty
  | _ => none

def PluginInfo.ofJson? (value : Value) : Option PluginInfo := do
  match ← value.fields? ["name", "enabled", "path"] with
  | [some name, some enabled, path] =>
    let path ← match path with
      | none | some .null => pure none
      | some path => some <$> path.text?
    return ⟨← name.text?, ← enabled.bool?, path⟩
  | _ => failure

def Reply.ofJson? (value : Value) : Option Reply := do
  let (tag, body) ← value.tagged? tagField dataField
  let body ← body
  match tag with
  | "architectPluginsResult" => return .paths (← CapabilityPaths.ofJson? body)
  | "inferencePluginsResult" => return .plugins (← body.items? PluginInfo.ofJson?)
  | _ => failure

end Capabilities.Host
