import RuleLint.Module.Loading
import RuleLint.Rule.Compilation

namespace RuleLint

open File (Path FileSystem)
open Rule (Subsystem CompilationError RuleSite Unclassified)

inductive ValidateError
  | load (cause : LoadError)
  | unclassified (cause : Unclassified)
deriving DecidableEq, Repr

namespace ValidateError

def message : ValidateError → String
  | load cause => cause.message
  | unclassified cause => cause.message

def chain : ValidateError → List String
  | load cause => cause.chain
  | unclassified cause => [cause.message, cause.reason]

end ValidateError

structure Validator where
  loader : Loader
  subsystem : Subsystem

namespace Validator

def new (settings : Settings) (subsystem : Subsystem) : Validator where
  loader := (Loader.new settings).withHost subsystem.moduleName
  subsystem := subsystem

/-- The module a path leads to, if it refers to the subsystem's module. The references of one that
does not are not followed. -/
def relevant (fs : FileSystem) (path : Path) (v : Validator) :
    Except LoadError (Option Module) × Validator :=
  match v.loader.scopeFor fs path with
  | .error e => (.error e, v)
  | .ok (location, scope) =>
    let wanted (image : Image) : Bool := Rule.isRelevant v.subsystem image
    let (result, loader) := v.loader.loadAtIf fs scope location wanted
    (result, { v with loader := loader })

def withModule {α : Type} (fs : FileSystem) (path : Path) (v : Validator)
    (use : Module → Except Unclassified (List α)) : Except ValidateError (List α) × Validator :=
  match v.relevant fs path with
  | (.error e, v) => (.error (.load e), v)
  | (.ok none, v) => (.ok [], v)
  | (.ok (some m), v) =>
    match use m with
    | .ok results => (.ok results, v)
    | .error cause => (.error (.unclassified cause), v)

def check (fs : FileSystem) (path : Path) (v : Validator) :
    Except ValidateError (List CompilationError) × Validator :=
  v.withModule fs path (Rule.compileModule v.subsystem)

def ruleSites (fs : FileSystem) (path : Path) (v : Validator) :
    Except ValidateError (List RuleSite) × Validator :=
  v.withModule fs path fun m => .ok (Rule.ruleSites v.subsystem m)

def invalidate (fs : FileSystem) (path : Path) (v : Validator) : Bool × Validator :=
  let (dropped, loader) := v.loader.invalidate fs path
  (dropped, { v with loader := loader })

end Validator

end RuleLint
