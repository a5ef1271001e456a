import RuleLint.Module.Cache
import RuleLint.Text.Basic

namespace RuleLint

structure Settings where
  extension : String
  hostModules : List String
  cachePolicy : CachePolicy
deriving DecidableEq, Repr

structure UnknownPolicy where
  text : String
deriving DecidableEq, Repr

def UnknownPolicy.message (e : UnknownPolicy) : String :=
  "Config error: unknown cache policy '" ++ e.text ++ "' (expected 'fingerprint' or 'pinned')"

def CachePolicy.parse (text : String) : Except UnknownPolicy CachePolicy :=
  match (Text.trimBlanks text).map Char.toLower with
  | "fingerprint" => .ok .fingerprint
  | "pinned" => .ok .pinned
  | other => .error ⟨other⟩

namespace Settings

def default : Settings where
  extension := "rmod"
  hostModules := ["core"]
  cachePolicy := .fingerprint

def bareExtension (text : String) : String := String.ofList (text.toList.dropWhile (· = '.'))

def splitNames (text : String) : List String :=
  ((Text.splitOn ',' text.toList).map fun piece => Text.trimBlanks (String.ofList piece)).filter
    (· ≠ "")

/-- The settings that variables make of the defaults. A policy that there is not is passed over. -/
def ofVariables (value? : String → Option String) : Settings where
  extension := ((value? "RULECHECK_BINARY_EXTENSION").map bareExtension).getD default.extension
  hostModules := ((value? "RULECHECK_HOST_MODULES").map splitNames).getD default.hostModules
  cachePolicy :=
    match (value? "RULECHECK_CACHE_POLICY").map CachePolicy.parse with
    | some (.ok policy) => policy
    | _ => default.cachePolicy

end Settings

end RuleLint
