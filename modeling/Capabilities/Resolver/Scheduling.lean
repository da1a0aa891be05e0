import Capabilities.Host.Exchange
import Capabilities.Resolver.Config
import Capabilities.Resolver.State
import Capabilities.Session.Program

/-!
# From a missing capability to a file to load

When a consumer needs a capability that nobody has registered, the path table says which module
provides it, relative to the modules root of the consumer. That module's file is queued; if it
cannot be found out, the capability is warned about.

`Work` is what resolving reads and changes: the program, the resolver's memory and the path table.
-/

namespace Capabilities.Resolver

open Host Session

/-- What resolving reads and changes. -/
structure Work where
  program : Program
  state : State
  table : PathTable
deriving Repr

/-- What became of the wish for a provider. -/
inductive ScheduleOutcome where
  /-- Its file was queued. -/
  | scheduled (path : String)
  /-- Its file is loaded or queued already, or could not be loaded before. -/
  | alreadyKnown (path : String)
  /-- Its file is not known. -/
  | unresolvable
deriving DecidableEq, Repr

/-- The file of a module for a consumer: the consumer's modules root, the module's path and the
    extension. -/
def Config.modulePath? (config : Config) (consumer relative : String) : Option String :=
  (config.modulesRoot? consumer).map fun root => root ++ relative ++ config.moduleExtension

def schedule (config : Config) (mail : Mail) (name consumer : String) (work : Work) :
    ScheduleOutcome × Work :=
  let work := { work with table := work.table.poll mail }
  match work.table.resolve name with
  | .missing =>
    (.unresolvable,
      { work with state := work.state.warnCapability consumer (.unresolved name) })
  | .notYetAvailable =>
    let state := work.state.reportTableUnavailable consumer
    (.unresolvable, { work with state := state.warnCapability consumer (.unresolved name) })
  | .found relative =>
    match config.modulePath? consumer relative with
    | none =>
      let warning := .outsideModulesDir name config.modulesDir
      (.unresolvable, { work with state := work.state.warnCapability consumer warning })
    | some path =>
      let (added, program) := work.program.addFile path none work.state.currentOrigin
      let work := { work with program := program }
      if added then (.scheduled path, work) else (.alreadyKnown path, work)

end Capabilities.Resolver
