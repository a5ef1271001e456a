import RuleLint.File.System
import RuleLint.Image.Codec

namespace RuleLint

open File (Path Location FileError)
open Image (DecodeError)

inductive Resolver
  | host
  | directory
deriving DecidableEq, Repr

def Resolver.text : Resolver → String
  | host => "host"
  | directory => "directory"

inductive ProbeOutcome
  | notFound
  | unreadable (reason : String)
  | malformed (reason : String)
  | nameMismatch (found : String)
  | invalidName
deriving DecidableEq, Repr

def ProbeOutcome.text : ProbeOutcome → String
  | notFound => "not found"
  | unreadable reason => "unreadable: " ++ reason
  | malformed reason => "malformed image: " ++ reason
  | nameMismatch found => "image declares module '" ++ found ++ "' instead"
  | invalidName => "not a plain module name"

structure Probe where
  resolver : Resolver
  location : String
  outcome : ProbeOutcome
deriving DecidableEq, Repr

def Probe.text (p : Probe) : String :=
  "[" ++ p.resolver.text ++ "] " ++ p.location ++ ": " ++ p.outcome.text

structure ResolutionFailure where
  name : String
  requestedBy : String
  probes : List Probe
deriving DecidableEq, Repr

namespace ResolutionFailure

def message (f : ResolutionFailure) : String :=
  "Could not load module '" ++ f.name ++ "' referenced by '" ++ f.requestedBy ++
    "' or one of its dependencies."

def trace? (f : ResolutionFailure) : Option String :=
  match f.probes with
  | [] => none
  | probes => some ("\n".intercalate (probes.map fun p => "  " ++ p.text))

def text (f : ResolutionFailure) : String :=
  match f.trace? with
  | some trace => f.message ++ "\nProbe log:\n" ++ trace
  | none => f.message

end ResolutionFailure

structure DependencyFailure where
  module : String
  path : Path
  failures : List ResolutionFailure
deriving DecidableEq, Repr

namespace DependencyFailure

def headline (f : DependencyFailure) : String :=
  "Unable to load one or more of the requested types of module '" ++ f.module ++ "' (" ++
    f.path.text ++ ")."

def missing (f : DependencyFailure) : List String := f.failures.map (·.name)

def message (f : DependencyFailure) : String :=
  "\n\n".intercalate (f.headline :: "Loader failures:" :: f.failures.map (·.text))

end DependencyFailure

inductive LoadError
  | io (path : Path) (cause : FileError)
  | image (path : Path) (cause : DecodeError)
  | unresolved (failure : DependencyFailure)
deriving DecidableEq, Repr

namespace LoadError

def message : LoadError → String
  | io path cause => "failed to read module image " ++ path.text ++ ": " ++ cause.text
  | image path cause => "failed to decode module image " ++ path.text ++ ": " ++ cause.message
  | unresolved failure => failure.message

def chain : LoadError → List String
  | io path cause => [(io path cause).message, cause.text]
  | image path cause => [(image path cause).message, cause.message]
  | unresolved failure => [failure.message]

end LoadError

end RuleLint
