import Capabilities.Module.Declaration
import Capabilities.Module.Entry
import Capabilities.Resolver.Step

/-!
# Binding the imports of consumers

A consumer's entry function receives its capabilities through the parameter `imports`. Binding
gives that parameter an object type of the file's own, whose members hold the types registered for
the names the file declares; the parameter's members and the variables that give imports a name
hold them too. A name that nobody has registered is scheduled for loading and binds on a later
pass. When another type is registered for a name, the old one is taken back wherever it was put.
-/

namespace Capabilities.Resolver

open Host Capabilities.Types Capabilities.Module Session

/-- Where a consumer's imports arrive: the value of the parameter, and the variables that give
    imports a name, by capability. -/
structure ConsumerSite where
  file : String
  imports : ValueId
  aliases : List (String × ValueId)
deriving DecidableEq, Repr

/-- Find where an entry function's imports arrive. There is no place if its file has no scope
    for it. -/
def ConsumerSite.locate? (program : Program) (file : String) (entry : Entry) :
    Option ConsumerSite := do
  let scope := entry.node.id
  let imports ← program.localValue? file scope importsParameter
  let aliases := entry.importAliases.filterMap fun item =>
    (program.localValue? file scope item.localName).map (item.capability, ·)
  return ⟨file, imports, aliases⟩

/-- The object type that stands for a file's imports, made on first use. -/
def importsObject (file : String) : Resolve TypeId := do
  match (← Resolve.state).importsObject? file with
  | some object => return object
  | none =>
    let object ← Resolve.growing (·.newObject (some importsParameter) (some file))
    Resolve.remember (·.setImportsObject file object)
    return object

/-- The type registered for a name. One that nobody has registered is scheduled. -/
def resolveName (config : Config) (mail : Mail) (file name : String) :
    Resolve (Option TypeId) := do
  match (← Resolve.state).registry.lookup? name with
  | some type => return some type
  | none =>
    modify fun work => (schedule config mail name file work).2
    return (← Resolve.state).registry.lookup? name

def replaceType (old new : Option TypeId) (target : ValueId) : Resolve Unit := do
  match old with
  | some old => Resolve.removeType target old
  | none => pure ()
  match new with
  | some new => Resolve.addType target new
  | none => pure ()

/-- Let everything that stands for an import hold its type: the member of the parameter, the
    member of the imports object, and the variables that give the import a name. Nothing is done
    if the file is bound to that type already. -/
def attach (site : ConsumerSite) (object : TypeId) (name : String) (type : Option TypeId) :
    Resolve Unit := do
  let bound := ((← Resolve.state).binding? site.file).bind (·.type? name)
  if bound == type then return ()
  let direct ← Resolve.onStore (·.valueMember site.imports name)
  let member ← Resolve.onStore (·.ensureMember object name)
  let named := (site.aliases.filter (·.1 == name)).map Prod.snd
  (direct :: member :: named).forM (replaceType bound type)

def bindNames (config : Config) (mail : Mail) (site : ConsumerSite) (object : TypeId) :
    ImportsBinding → List String → Resolve ImportsBinding
  | binding, [] => return binding
  | binding, name :: rest => do
    let type ← resolveName config mail site.file name
    attach site object name type
    bindNames config mail site object (binding.bind name type) rest

/-- Bind the imports of one entry function. Their enumeration shows the resolved names. -/
def bindEntry (config : Config) (mail : Mail) (site : ConsumerSite) (names : List String) :
    Resolve ImportsBinding := do
  let object ← importsObject site.file
  Resolve.addType site.imports object
  let binding ← bindNames config mail site object (.empty site.file) names
  Resolve.onStore (·.setEnumeration site.imports binding.resolved)
  return binding

def bindSite (config : Config) (mail : Mail) (names : List String) (site : ConsumerSite) :
    Resolve Unit := do
  let binding ← bindEntry config mail site names
  Resolve.remember (·.storeBinding binding)

/-- Bind an entry function of a file. One without a scope is passed over. -/
def bindFound (config : Config) (mail : Mail) (file : String) (names : List String)
    (entry : Entry) : Resolve Unit := do
  match ConsumerSite.locate? (← get).program file entry with
  | none => return ()
  | some site => bindSite config mail names site

/-- Bind all entry functions of a file that consume. -/
def bindFile (config : Config) (mail : Mail) (file : String) : Resolve Unit := do
  match (← get).program.file? file with
  | none => return ()
  | some source =>
    let found := entries [config.consumerEntry] source.root
    if found.isEmpty then return ()
    match (declaration .consumes config.entryNames source.root).names? with
    | none => Resolve.remember (·.warnFile file (.consumesUndeclared config.consumerEntry))
    | some names => found.forM (bindFound config mail file names)

/-- Bind one loaded file after the other; a refusal in one does not stop the others. -/
def bindFiles (config : Config) (mail : Mail) : List String → Work → Work
  | [], work => work
  | file :: rest, work =>
    let work := { work with state := { work.state with currentOrigin := some file } }
    let (_, work) := (bindFile config mail file).runOn work
    bindFiles config mail rest work

def bindProgram (config : Config) (mail : Mail) (work : Work) : Work :=
  let work := bindFiles config mail work.program.fileNames work
  { work with state := { work.state with currentOrigin := none } }

end Capabilities.Resolver
