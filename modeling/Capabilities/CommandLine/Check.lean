import Capabilities.CommandLine.Arguments
import Capabilities.Session.Report
import Capabilities.Workspace.Derivation
import Capabilities.Workspace.Discovery

/-!
# Checking a workspace

`check` resolves the imports of the modules below a directory and prints the report. All modules
are loaded unless entry files are given; then those are, and their providers on demand. The host
that answers the resolver's two requests gives the path table, read from a file or derived from
the modules, and a list in which the resolver is the only plugin.
-/

namespace Capabilities.CommandLine

open Host Json Resolver Script Session Workspace

inductive CheckError where
  | usage (error : UsageError)
  /-- A path leads nowhere, or a file cannot be read. -/
  | file
  /-- A file holds no JSON of the form expected. -/
  | json
  | config (error : ConfigError)
deriving DecidableEq, Repr

def orFail {α : Type} (error : CheckError) : Option α → Except CheckError α
  | some value => .ok value
  | none => .error error

/-- Read the settings from a file's text, if there is one, and check them. -/
def loadConfig (text : Option String) : Except CheckError Config := do
  let text ← orFail .file text
  let config ← orFail .json ((Value.parse? text).bind Config.ofJson?)
  match config.validate with
  | .ok () => return config
  | .error error => throw (.config error)

def loadTable (text : Option String) : Except CheckError CapabilityPaths := do
  let text ← orFail .file text
  orFail .json ((Value.parse? text).bind CapabilityPaths.ofJson?)

/-- A resolver whose two requests have been answered, and the mail with the answers. -/
def answeredResolver (config : Config) (table : CapabilityPaths) :
    Except ConfigError (ResolverPlugin × Mail) := do
  let resolver ← ResolverPlugin.new config
  let (resolver, exchange) := resolver.connect .initial
  let (_, exchange) := exchange.deliver (.paths table)
  let (_, exchange) := exchange.deliver (.plugins [⟨config.pluginName, true, none⟩])
  return (resolver, exchange.mail)

def queueAll (program : Program) (paths : List String) : Program :=
  paths.foldl (fun program path => (program.addFile path none none).2) program

def checkReport [Parser] (disk : Disk) (arguments : CheckArguments) : Except CheckError Report := do
  let config ← match arguments.config with
    | some path => loadConfig (disk.read path)
    | none => pure Config.default
  let root ← orFail .file (disk.canonical? arguments.directory)
  let modules := discover config disk root
  let table ← match arguments.table with
    | some path => loadTable (disk.read path)
    | none => pure (deriveTable config disk.read modules)
  let (resolver, mail) ← (answeredResolver config table).mapError .config
  let start ← if arguments.entryFiles.isEmpty then pure modules
    else orFail .file (arguments.entryFiles.mapM disk.canonical?)
  let engine := Engine.new [Installed.resolver resolver]
  let engine := { engine with program := queueAll engine.program start }
  return (engine.runPasses disk.read mail arguments.maxPasses).1

def check [Parser] (disk : Disk) (arguments : CheckArguments) : Except CheckError String := do
  let report ← checkReport disk arguments
  return if arguments.json then report.toJson.pretty ++ "\n" else report.text

def run [Parser] (disk : Disk) (arguments : List String) : Except CheckError String := do
  check disk (← (parse arguments).mapError .usage)

end Capabilities.CommandLine
