import Capabilities.Host.Paths
import Capabilities.Types.Store

/-!
# The registry of providers

The registry maps each capability that some file provides to the type provided, for the whole
session. Registering a capability again replaces what was registered.
-/

namespace Capabilities.Resolver

open Host Capabilities.Types

/-- A provided type and the file whose registration provided it. -/
structure ProviderEntry where
  type : TypeId
  origin : Option String
deriving DecidableEq, Repr

/-- The providers by the text of their capability's key, in order of first registration. -/
structure Registry where
  providers : Keyed ProviderEntry
deriving DecidableEq, Repr

namespace Registry

def empty : Registry := ⟨.empty⟩

instance : Inhabited Registry := ⟨empty⟩

def provider? (registry : Registry) (name : String) : Option ProviderEntry :=
  registry.providers.get? (CapabilityKey.of name).text

def lookup? (registry : Registry) (name : String) : Option TypeId :=
  (registry.provider? name).map ProviderEntry.type

/-- Register a type for a capability; what was registered before. -/
def register (registry : Registry) (name : String) (type : TypeId) (origin : Option String) :
    Option ProviderEntry × Registry :=
  (registry.provider? name, ⟨registry.providers.put (CapabilityKey.of name).text ⟨type, origin⟩⟩)

def names (registry : Registry) : List String :=
  registry.providers.keys.filterMap fun text => (CapabilityKey.mk text).name?

def size (registry : Registry) : Nat := registry.providers.size

end Registry

end Capabilities.Resolver
