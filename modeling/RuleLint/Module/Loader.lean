import RuleLint.Module.Cache
import RuleLint.Module.Scope
import RuleLint.Settings.Basic

namespace RuleLint

open File (Path Location FileSystem)
open Hash (Fingerprint)

structure Loader where
  extension : String
  hosts : List String
  cache : ModuleCache
  loads : Nat
  scopes : ScopeRegistry
deriving Repr

namespace Loader

def new (settings : Settings) : Loader where
  extension := settings.extension
  hosts := settings.hostModules
  cache := .empty settings.cachePolicy
  loads := 0
  scopes := .empty

def withHost (l : Loader) (name : String) : Loader :=
  if l.hosts.contains name then l else { l with hosts := l.hosts ++ [name] }

def scope (l : Loader) (directory : Path) : Scope := ⟨directory, l.hosts, l.extension⟩

end Loader

mutual

def Module.dependenciesCurrent (fs : FileSystem) : Module → Bool
  | ⟨_, _, _, dependencies, _, _⟩ => Module.allCurrent fs dependencies

def Module.allCurrent (fs : FileSystem) : List Module → Bool
  | [] => true
  | m :: ms =>
    let unchanged :=
      match fs.readAt m.location with
      | .ok bytes => .ofBytes bytes = m.fingerprint
      | .error _ => false
    unchanged && m.dependenciesCurrent fs && Module.allCurrent fs ms

end

mutual

/-- The locations of a module's dependencies added to `found`. Below a location that is among them
already no more are added. -/
def Module.dependencyLocations (found : List Location) : Module → List Location
  | ⟨_, _, _, dependencies, _, _⟩ => Module.addLocations found dependencies

def Module.addLocations (found : List Location) : List Module → List Location
  | [] => found
  | m :: ms =>
    if m.location ∈ found then Module.addLocations found ms
    else Module.addLocations (m.dependencyLocations (found ++ [m.location])) ms

end

namespace Loader

/-- The cached module at a location, if it is current for an image with this fingerprint and,
where the policy asks for it, its dependencies are unchanged. If they are not it is dropped. -/
def current (fs : FileSystem) (l : Loader) (location : Location) (f : Fingerprint) :
    Option Module × Loader :=
  match l.cache.lookup location (some f) with
  | none => (none, l)
  | some m =>
    if l.cache.policy = .fingerprint ∧ m.dependenciesCurrent fs = false then
      (none, { l with cache := l.cache.erase location })
    else (some m, l)

def build (l : Loader) (location : Location) (f : Fingerprint) (image : Image)
    (dependencies : List Module) (hosted : List String) : Module × Loader :=
  let loads := l.loads + 1
  (⟨location, f, image, dependencies, hosted, loads⟩, { l with loads := loads })

def store (l : Loader) (m : Module) : Module × Loader :=
  let (m, cache) := l.cache.insert m.location m.fingerprint m
  (m, { l with cache := cache })

end Loader

end RuleLint
