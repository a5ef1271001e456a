import RuleLint.File.Path
import RuleLint.Hash
import RuleLint.Image.Basic

namespace RuleLint

open File (Location)
open Hash (Fingerprint)

/-- A module as it was loaded. The load id tells one load of an image from another. -/
structure Module where
  location : Location
  fingerprint : Fingerprint
  image : Image
  dependencies : List Module
  hostReferences : List String
  loadId : Nat
deriving Repr

namespace Module

def name (m : Module) : String := m.image.name

mutual

def findType? (name : String) : Module → Option Image.TypeDef
  | ⟨_, _, image, dependencies, _, _⟩ => (image.findType? name).or (findTypeIn? name dependencies)

def findTypeIn? (name : String) : List Module → Option Image.TypeDef
  | [] => none
  | m :: ms => (m.findType? name).or (findTypeIn? name ms)

end

end Module

end RuleLint
