import RuleLint.Module.Linking

namespace RuleLint

open File (Path Location FileSystem)
open Hash (Fingerprint)

namespace Loader

inductive Fetched
  | cached (module : Module)
  | decoded (fingerprint : Fingerprint) (image : Image)
deriving Repr

def locate (fs : FileSystem) (path : Path) : Except LoadError Location :=
  match fs.canonicalize path with
  | .ok location => .ok location
  | .error cause => .error (.io path cause)

def fetch (fs : FileSystem) (location : Location) (l : Loader) :
    Except LoadError Fetched × Loader :=
  match l.cache.lookup location none with
  | some m => (.ok (.cached m), l)
  | none =>
    match fs.readAt location with
    | .error cause => (.error (.io location.path cause), l)
    | .ok bytes =>
      let fingerprint := Fingerprint.ofBytes bytes
      match l.current fs location fingerprint with
      | (some m, l) => (.ok (.cached m), l)
      | (none, l) =>
        match Image.decode bytes with
        | .ok image => (.ok (.decoded fingerprint image), l)
        | .error cause => (.error (.image location.path cause), l)

def link (fs : FileSystem) (scope : Scope) (location : Location) (fingerprint : Fingerprint)
    (image : Image) (l : Loader) : Except LoadError Module × Loader :=
  let (links, state) :=
    linkReferences fs scope [image.name] image.name image.references ⟨l, []⟩
  if state.failures = [] then
    let (m, l) := state.loader.build location fingerprint image
      (links.filterMap Link.module?) (links.filterMap Link.hostName?)
    let (m, l) := l.store m
    (.ok m, l)
  else (.error (.unresolved ⟨image.name, location.path, state.failures⟩), state.loader)

def loadAt (fs : FileSystem) (scope : Scope) (location : Location) (l : Loader) :
    Except LoadError Module × Loader :=
  match l.fetch fs location with
  | (.error e, l) => (.error e, l)
  | (.ok (.cached m), l) => (.ok m, l)
  | (.ok (.decoded fingerprint image), l) => l.link fs scope location fingerprint image

/-- Loads the module at a location if its image is wanted. The references of one that is not are
not followed, and it is not cached. -/
def loadAtIf (fs : FileSystem) (scope : Scope) (location : Location) (wanted : Image → Bool)
    (l : Loader) : Except LoadError (Option Module) × Loader :=
  match l.fetch fs location with
  | (.error e, l) => (.error e, l)
  | (.ok (.cached m), l) => (.ok (if wanted m.image then some m else none), l)
  | (.ok (.decoded fingerprint image), l) =>
    if wanted image then
      let (result, l) := l.link fs scope location fingerprint image
      (result.map some, l)
    else (.ok none, l)

def loadIn (fs : FileSystem) (scope : Scope) (path : Path) (l : Loader) :
    Except LoadError Module × Loader :=
  match locate fs path with
  | .error e => (.error e, l)
  | .ok location => l.loadAt fs scope location

def loadIf (fs : FileSystem) (scope : Scope) (path : Path) (wanted : Image → Bool) (l : Loader) :
    Except LoadError (Option Module) × Loader :=
  match locate fs path with
  | .error e => (.error e, l)
  | .ok location => l.loadAtIf fs scope location wanted

def scopeFor (fs : FileSystem) (path : Path) (l : Loader) : Except LoadError (Location × Scope) :=
  (locate fs path).map fun location => (location, l.scope (Location.path location.dropLast))

def load (fs : FileSystem) (path : Path) (l : Loader) : Except LoadError Module × Loader :=
  match l.scopeFor fs path with
  | .error e => (.error e, l)
  | .ok (location, scope) => l.loadAt fs scope location

/-- The location under which a path is looked for in the cache: where it leads or, if it leads
nowhere, what it writes out. -/
def cacheKey? (fs : FileSystem) (path : Path) : Option Location :=
  match fs.canonicalize path with
  | .ok location => some location
  | .error _ => path.plainLocation?

def invalidate (fs : FileSystem) (path : Path) (l : Loader) : Bool × Loader :=
  match cacheKey? fs path with
  | none => (false, l)
  | some location =>
    match l.cache.get? location with
    | none => (false, l)
    | some m =>
      let cache := (m.dependencyLocations []).foldl ModuleCache.erase l.cache
      -- The module itself is gone already if its own place was gathered.
      (cache.contains location, { l with cache := cache.erase location })

end Loader

end RuleLint
