import Capabilities.Resolver.Plugin
import Capabilities.Session.Recorder

/-!
# The plugins of a session

A session's engine runs resolvers and recorders side by side.
-/

namespace Capabilities.Session

open Resolver

inductive Installed where
  | resolver (plugin : ResolverPlugin)
  | recorder (plugin : Recorder)

namespace Installed

def resolver? : Installed → Option ResolverPlugin
  | .resolver plugin => some plugin
  | .recorder _ => none

def recorder? : Installed → Option Recorder
  | .recorder plugin => some plugin
  | .resolver _ => none

end Installed

instance : Plugin Installed where
  beforeLoad mail file
    | .resolver plugin, program =>
      let (plugin, program) := Plugin.beforeLoad mail file plugin program
      (.resolver plugin, program)
    | .recorder plugin, program =>
      let (plugin, program) := Plugin.beforeLoad mail file plugin program
      (.recorder plugin, program)
  afterLoad mail file
    | .resolver plugin, program =>
      let (plugin, program) := Plugin.afterLoad mail file plugin program
      (.resolver plugin, program)
    | .recorder plugin, program =>
      let (plugin, program) := Plugin.afterLoad mail file plugin program
      (.recorder plugin, program)
  postInfer mail
    | .resolver plugin, program =>
      let (plugin, program) := Plugin.postInfer mail plugin program
      (.resolver plugin, program)
    | .recorder plugin, program =>
      let (plugin, program) := Plugin.postInfer mail plugin program
      (.recorder plugin, program)
  demand
    | .resolver plugin => Plugin.demand plugin
    | .recorder plugin => Plugin.demand plugin

def Engine.resolver? (engine : Engine Installed) : Option ResolverPlugin :=
  engine.plugins.findSome? Installed.resolver?

def Engine.recorder? (engine : Engine Installed) : Option Recorder :=
  engine.plugins.findSome? Installed.recorder?

end Capabilities.Session
