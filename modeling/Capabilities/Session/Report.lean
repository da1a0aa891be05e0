import Capabilities.Json.Printer
import Capabilities.Session.Installed
import Capabilities.Text.Grid

/-!
# Reports

A `Report` sums up a session: how many passes it took and how many files they loaded, the
registered providers, what the imports of each consumer resolve to, and the diagnostics.
`Engine.runPasses` calls `analyze` until nothing is queued any more, at most a given number of
times and at least once.
-/

namespace Capabilities.Session

open Json Resolver Capabilities.Types

/-! ### Contents -/

structure ProviderReport where
  name : String
  type : String
  origin : Option String
deriving DecidableEq, Repr

structure ImportReport where
  name : String
  type : Option String
  members : List String
  doc : Option String
deriving DecidableEq, Repr

structure ConsumerReport where
  file : String
  imports : List ImportReport
deriving DecidableEq, Repr

structure Report where
  passes : Nat
  loaded : Nat
  providers : List ProviderReport
  consumers : List ConsumerReport
  diagnostics : List Diagnostic
deriving DecidableEq, Repr

/-! ### Making a report -/

def providerReports (store : Store) (registry : Registry) : List ProviderReport :=
  registry.names.filterMap fun name =>
    (registry.provider? name).map fun entry => ⟨name, store.describe entry.type, entry.origin⟩

def importReport (store : Store) (name : String) (type : Option TypeId) : ImportReport :=
  { name
    type := type.map store.describe
    members := ((type.bind store.object?).map fun object => object.members.keys).getD []
    doc := type.bind store.doc? }

def consumerReport (store : Store) (binding : ImportsBinding) : ConsumerReport :=
  ⟨binding.file, binding.entries.entries.map fun (name, type) => importReport store name type⟩

/-- The report of an engine. Without a resolver there is nothing to tell. -/
def Engine.report (engine : Engine Installed) (passes loaded : Nat) : Report :=
  match engine.resolver? with
  | none => ⟨passes, loaded, [], [], []⟩
  | some resolver =>
    let store := engine.program.store
    { passes, loaded
      providers := providerReports store resolver.state.registry
      consumers := resolver.state.bindings.values.map (consumerReport store)
      diagnostics := resolver.state.diagnostics }

/-- Analyze once and then while something is queued, at most `more` times more. The number of
    passes, of loaded files, and the engine. -/
def Engine.analyzeAll [Script.Parser] {π : Type} [Plugin π] (read : String → Option String)
    (mail : Host.Mail) (engine : Engine π) : Nat → Nat × Nat × Engine π
  | 0 =>
    let (pass, engine) := engine.analyze read mail
    (1, pass.loaded.length, engine)
  | more + 1 =>
    let (pass, engine) := engine.analyze read mail
    if pass.queued == 0 then (1, pass.loaded.length, engine)
    else
      let (passes, loaded, engine) := engine.analyzeAll read mail more
      (passes + 1, pass.loaded.length + loaded, engine)

/-- Analyze until nothing is queued, at most `limit` times and at least once, and report. -/
def Engine.runPasses [Script.Parser] (read : String → Option String) (mail : Host.Mail)
    (limit : Nat) (engine : Engine Installed) : Report × Engine Installed :=
  let (passes, loaded, engine) := engine.analyzeAll read mail (limit - 1)
  (engine.report passes loaded, engine)

/-! ### Writing -/

def ProviderReport.toJson (report : ProviderReport) : Value :=
  .ofFields [("name", .ofString report.name), ("ty", .ofString report.type),
    ("origin", .ofOption .ofString report.origin)]

def ImportReport.toJson (report : ImportReport) : Value :=
  .ofFields [("name", .ofString report.name), ("resolved", .bool report.type.isSome),
    ("ty", .ofOption .ofString report.type), ("members", .array (report.members.map .ofString)),
    ("doc", .ofOption .ofString report.doc)]

def ConsumerReport.toJson (report : ConsumerReport) : Value :=
  .ofFields [("file", .ofString report.file),
    ("imports", .array (report.imports.map ImportReport.toJson))]

def Report.toJson (report : Report) : Value :=
  .ofFields [("passes", .ofNat report.passes), ("loaded", .ofNat report.loaded),
    ("providers", .array (report.providers.map ProviderReport.toJson)),
    ("consumers", .array (report.consumers.map ConsumerReport.toJson)),
    ("diagnostics", .array (report.diagnostics.map Diagnostic.toJson))]

def ConsumerReport.rows (report : ConsumerReport) : List (List String) :=
  report.imports.map fun item =>
    [report.file, item.name, item.type.getD "<unresolved>", String.intercalate ", " item.members]

def diagnosticLine (diagnostic : Diagnostic) : String :=
  "  [" ++ diagnostic.severity.label ++ "] " ++ diagnostic.file.getD "-" ++ ": "
    ++ diagnostic.message

def Report.text (report : Report) : String :=
  let rows := report.consumers.flatMap ConsumerReport.rows
  let summary := "Loaded " ++ toString report.loaded ++ " files in " ++ toString report.passes
    ++ " passes; " ++ toString report.providers.length ++ " providers registered."
  let imports := if rows.isEmpty then "No consumers found."
    else Text.grid (["File", "Import", "Type", "Members"] :: rows)
  let problems := if report.diagnostics.isEmpty then []
    else "" :: "Diagnostics:" :: report.diagnostics.map diagnosticLine
  String.join ((summary :: imports :: problems).map (· ++ "\n"))

end Capabilities.Session
