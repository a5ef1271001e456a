import RuleLint.File.Path

namespace RuleLint.Watch

open File (Path)

inductive EventKind
  | create
  | modify
  | other
deriving DecidableEq, Repr

structure Event where
  kind : EventKind
  paths : List Path
deriving DecidableEq, Repr

def touches (event : Event) (binary : Path) : Bool :=
  match event.kind, binary.fileName? with
  | .other, _ => false
  | _, none => false
  | _, some name =>
    event.paths.any fun p =>
      p.fileName? = some name || (binary.extension?.isSome && p.extension? = binary.extension?)

end RuleLint.Watch
