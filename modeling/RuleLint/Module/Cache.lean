import RuleLint.Module.Basic

namespace RuleLint

open File (Location)
open Hash (Fingerprint)

inductive CachePolicy
  | fingerprint
  | pinned
deriving DecidableEq, Repr, Inhabited

def CachePolicy.text : CachePolicy → String
  | fingerprint => "fingerprint"
  | pinned => "pinned"

structure CacheEntry where
  fingerprint : Fingerprint
  module : Module
deriving Repr

structure ModuleCache where
  policy : CachePolicy
  entries : List (Location × CacheEntry)
deriving Repr

namespace ModuleCache

def empty (policy : CachePolicy) : ModuleCache := ⟨policy, []⟩

def entry? (c : ModuleCache) (l : Location) : Option CacheEntry := c.entries.lookup l

def get? (c : ModuleCache) (l : Location) : Option Module := (c.entry? l).map (·.module)

def contains (c : ModuleCache) (l : Location) : Bool := (c.entry? l).isSome

def size (c : ModuleCache) : Nat := c.entries.length

/-- Whether an entry is current for an image with this fingerprint. Where the fingerprint is not
known only a pinned entry is. -/
def isCurrent (c : ModuleCache) (e : CacheEntry) (f : Option Fingerprint) : Bool :=
  match c.policy with
  | .pinned => true
  | .fingerprint => f = some e.fingerprint

def lookup (c : ModuleCache) (l : Location) (f : Option Fingerprint) : Option Module :=
  match c.entry? l with
  | some e => if c.isCurrent e f then some e.module else none
  | none => none

def erase (c : ModuleCache) (l : Location) : ModuleCache :=
  { c with entries := c.entries.filter (·.1 ≠ l) }

/-- Stores a module unless there is a current one at its location. The module to use from now on
comes with the cache. -/
def insert (c : ModuleCache) (l : Location) (f : Fingerprint) (m : Module) : Module × ModuleCache :=
  match c.lookup l (some f) with
  | some current => (current, c)
  | none => (m, { c with entries := (l, ⟨f, m⟩) :: (c.erase l).entries })

def clear (c : ModuleCache) : ModuleCache := empty c.policy

end ModuleCache

end RuleLint
