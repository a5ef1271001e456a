import RuleLint.Module.Failure

namespace RuleLint

open File (Path Location FileSystem)
open Text (Bytes)

structure Scope where
  directory : Path
  hosts : List String
  extension : String
deriving DecidableEq, Repr

inductive Resolution
  | host
  | image (location : Location) (bytes : Bytes)
  | declined (probes : List Probe)
deriving DecidableEq, Repr

def isPlainName (name : String) : Bool :=
  name ≠ "" && name ≠ "." && name ≠ ".." &&
    name.toList.all fun c => c ≠ '/' && c ≠ '\\' && c ≠ '\x00'

def candidate? (directory : Path) (extension name : String) : Option Path :=
  if isPlainName name then some (directory.join (name ++ "." ++ extension)) else none

namespace Scope

/-- What a look into the directory finds. The candidate is opened whatever the length of its path:
directories are meant whose files have absolute paths of at most `maxPathBytes`. -/
def resolveFile (s : Scope) (fs : FileSystem) (name : String) : Except Probe (Location × Bytes) :=
  match candidate? s.directory s.extension name with
  | none => .error ⟨.directory, s.directory.text, .invalidName⟩
  | some path =>
    let found := do
      let location ← fs.canonicalize path
      return (location, ← fs.readAt location)
    match found with
    | .ok image => .ok image
    | .error .missing => .error ⟨.directory, path.text, .notFound⟩
    | .error cause => .error ⟨.directory, path.text, .unreadable cause.text⟩

def resolve (s : Scope) (fs : FileSystem) (name : String) : Resolution :=
  if s.hosts.contains name then .host
  else
    match s.resolveFile fs name with
    | .ok (location, bytes) => .image location bytes
    | .error probe => .declined [⟨.host, "host modules", .notFound⟩, probe]

end Scope

structure ScopeRegistry where
  nextId : Nat
  active : List (Nat × Path)
deriving Repr

namespace ScopeRegistry

def empty : ScopeRegistry := ⟨0, []⟩

def register (r : ScopeRegistry) (directory : Path) : Nat × ScopeRegistry :=
  (r.nextId, ⟨r.nextId + 1, (r.nextId, directory) :: r.active⟩)

def close (r : ScopeRegistry) (id : Nat) : ScopeRegistry :=
  { r with active := r.active.filter (·.1 ≠ id) }

def directories (r : ScopeRegistry) : List Path := r.active.map (·.2)

end ScopeRegistry

end RuleLint
