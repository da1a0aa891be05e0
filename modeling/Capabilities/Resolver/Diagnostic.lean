import Capabilities.Json.Value

/-!
# Warnings and diagnostics

Problems met while capabilities are resolved never stop inference; they are kept as diagnostics. A
`Warning` is the cause, a `Diagnostic` adds the file it concerns and its wording.
-/

namespace Capabilities.Resolver

open Json

inductive Warning where
  /-- A file has a consumer entry function but does not say what it consumes. -/
  | consumesUndeclared (entryName : String)
  /-- A capability has no known path. -/
  | unresolved (name : String)
  /-- A consumer lies outside the modules directory, so the path cannot be completed. -/
  | outsideModulesDir (name modulesDir : String)
  /-- A file freezes an API but does not say what it provides. -/
  | providesUndeclared
  /-- A file freezes an API but does not provide exactly one capability. -/
  | ambiguousFreeze (count : Nat)
  /-- A registered object belongs to no provided capability. -/
  | unattributedRegistration (index : Nat)
  /-- The path table has not arrived. -/
  | pathTableUnavailable
deriving DecidableEq, Repr

inductive Severity where
  | warning | error
deriving DecidableEq, Repr

def Severity.name : Severity → String
  | .warning => "warning"
  | .error => "error"

def Severity.label : Severity → String
  | .warning => "Warning"
  | .error => "Error"

namespace Warning

/-- Only a missing path table is an error. -/
def severity : Warning → Severity
  | .pathTableUnavailable => .error
  | _ => .warning

/-- The capability a warning is about, if it is about a single one. -/
def capability? : Warning → Option String
  | .unresolved name => some name
  | .outsideModulesDir name _ => some name
  | _ => none

def message : Warning → String
  | .consumesUndeclared entryName => entryName ++ ".consumes not defined"
  | .unresolved name => "could not resolve \"" ++ name ++ "\" plugin"
  | .outsideModulesDir name modulesDir =>
    "could not resolve \"" ++ name ++ "\" plugin: expected consumer to be in " ++ modulesDir
      ++ "/ dir"
  | .providesUndeclared => "freezePublicAPI() without a provides declaration"
  | .ambiguousFreeze count =>
    "exporting " ++ toString count
      ++ " client-side plugins with freezePublicAPI() is not supported"
  | .unattributedRegistration index =>
    "register() object #" ++ toString index ++ " matches no provides entry"
  | .pathTableUnavailable => "capability path table not available"

def toJson : Warning → Value
  | .consumesUndeclared entryName =>
    .ofFields [("kind", .ofString "consumes_undeclared"), ("entry", .ofString entryName)]
  | .unresolved name => .ofFields [("kind", .ofString "unresolved"), ("name", .ofString name)]
  | .outsideModulesDir name modulesDir =>
    .ofFields [("kind", .ofString "outside_modules_dir"), ("name", .ofString name),
      ("modules_dir", .ofString modulesDir)]
  | .providesUndeclared => .ofFields [("kind", .ofString "provides_undeclared")]
  | .ambiguousFreeze count =>
    .ofFields [("kind", .ofString "ambiguous_freeze"), ("count", .ofNat count)]
  | .unattributedRegistration index =>
    .ofFields [("kind", .ofString "unattributed_registration"), ("index", .ofNat index)]
  | .pathTableUnavailable => .ofFields [("kind", .ofString "path_table_unavailable")]

end Warning

/-- A problem with the file it concerns, if it concerns one. -/
structure Diagnostic where
  file : Option String
  severity : Severity
  message : String
  warning : Warning
deriving DecidableEq, Repr

def Diagnostic.of (file : Option String) (warning : Warning) : Diagnostic :=
  ⟨file, warning.severity, warning.message, warning⟩

def Diagnostic.toJson (diagnostic : Diagnostic) : Value :=
  .ofFields [("file", .ofOption .ofString diagnostic.file),
    ("severity", .ofString diagnostic.severity.name), ("message", .ofString diagnostic.message),
    ("warning", diagnostic.warning.toJson)]

end Capabilities.Resolver
