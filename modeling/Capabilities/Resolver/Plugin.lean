import Capabilities.Resolver.Binding
import Capabilities.Resolver.Synthesis
import Capabilities.Session.Engine

/-!
# The resolver as a plugin

Installed in an engine, the resolver registers what each file provides as soon as the file is
inferred, and binds all consumers once everything queued is loaded. It works from the moment it
is installed and stops working only if the host's list of plugins says that it is disabled.
-/

namespace Capabilities.Resolver

open Host Session

/-- The resolver with its settings, its memory, the path table and the list of plugins as far as
    they have arrived. -/
structure ResolverPlugin where
  config : Config
  state : State
  table : PathTable
  plugins : Option (PendingReply (List PluginInfo))
deriving Repr

namespace ResolverPlugin

def new (config : Config) : Except ConfigError ResolverPlugin := do
  config.validate
  return ⟨config, .initial, .notRequested, none⟩

def withTable (resolver : ResolverPlugin) (table : PathTable) : ResolverPlugin :=
  { resolver with table := table }

/-- Ask the host for the path table and for the list of plugins. What cannot be asked for stays
    as it is. -/
def connect (resolver : ResolverPlugin) (exchange : Exchange) : ResolverPlugin × Exchange :=
  let (paths, exchange) := exchange.requestPaths
  let resolver := match paths with
    | .ok reply => { resolver with table := .requested reply }
    | .error _ => resolver
  let (plugins, exchange) := exchange.requestPlugins
  let resolver := match plugins with
    | .ok reply => { resolver with plugins := some reply }
    | .error _ => resolver
  (resolver, exchange)

def poll (mail : Mail) (resolver : ResolverPlugin) : ResolverPlugin :=
  { resolver with plugins := resolver.plugins.map (·.poll mail) }

/-- Whether the resolver works: unless the list, as it was at the last look, has arrived and its
    first entry of the resolver's name is disabled. -/
def isEnabled (resolver : ResolverPlugin) : Bool :=
  match resolver.plugins.bind (·.state.value?) with
  | none => true
  | some plugins =>
    match plugins.find? (·.name == resolver.config.pluginName) with
    | some plugin => plugin.enabled
    | none => true

def work (resolver : ResolverPlugin) (program : Program) : Work :=
  ⟨program, resolver.state, resolver.table⟩

def after (resolver : ResolverPlugin) (work : Work) : ResolverPlugin × Program :=
  ({ resolver with state := work.state, table := work.table }, work.program)

/-- What was derived from a file's former text is forgotten. -/
def beforeLoad (mail : Mail) (file : String) (resolver : ResolverPlugin) (program : Program) :
    ResolverPlugin × Program :=
  let resolver := resolver.poll mail
  if resolver.isEnabled then
    ({ resolver with state := resolver.state.resetFile file }, program)
  else (resolver, program)

/-- What a file provides is registered. -/
def afterLoad (mail : Mail) (file : String) (resolver : ResolverPlugin) (program : Program) :
    ResolverPlugin × Program :=
  let resolver := resolver.poll mail
  if resolver.isEnabled then
    let (_, work) := (synthesize resolver.config file).runOn (resolver.work program)
    resolver.after { work with state := work.state.setStage file .parsed }
  else (resolver, program)

/-- All consumers are bound. -/
def postInfer (mail : Mail) (resolver : ResolverPlugin) (program : Program) :
    ResolverPlugin × Program :=
  let resolver := resolver.poll mail
  if resolver.isEnabled then
    resolver.after (bindProgram resolver.config mail (resolver.work program))
  else (resolver, program)

end ResolverPlugin

instance : Plugin ResolverPlugin where
  beforeLoad := ResolverPlugin.beforeLoad
  afterLoad := ResolverPlugin.afterLoad
  postInfer := ResolverPlugin.postInfer
  demand _ := 0

end Capabilities.Resolver
