import RuleLint.File.System
import RuleLint.Settings.Basic
import RuleLint.Toml.Document

namespace RuleLint

open File (Path FileSystem FileError)

inductive SettingsError
  | io (cause : FileError)
  | malformed
deriving DecidableEq, Repr

namespace SettingsError

def message : SettingsError → String
  | io cause => "IO error: " ++ cause.text
  | malformed => "Config error: the text is no settings file"

def chain : SettingsError → List String
  | io cause => [(io cause).message, cause.text]
  | malformed => [malformed.message]

end SettingsError

namespace Settings

def policyOfName? : String → Option CachePolicy
  | "fingerprint" => some .fingerprint
  | "pinned" => some .pinned
  | _ => none

/-- The cache policy that a value stands for: by its name, or by a table with the name as the only
key, under which nothing stands. -/
def policy? : Toml.Value → Option CachePolicy
  | .text name => policyOfName? name
  | .table _ [(name, value)] => if value.isVoid then policyOfName? name else none
  | _ => none

def override (s : Settings) : String × Toml.Value → Option Settings
  | ("binary_extension", value) => do
    return { s with extension := bareExtension (← value.text?) }
  | ("host_modules", value) => do return { s with hostModules := ← value.texts? }
  | ("cache_policy", value) => do return { s with cachePolicy := ← policy? value }
  | _ => none

def overrideText (s : Settings) (text : String) : Except SettingsError Settings :=
  match Toml.parse text >>= fun entries => entries.foldlM override s with
  | some settings => .ok settings
  | none => .error .malformed

/-- The settings that variables make, with those of the file at a path, if there is one. A variable
without a value says nothing. -/
def load (fs : FileSystem) (value? : String → Option String) (path : Option Path) :
    Except SettingsError Settings :=
  let settings := ofVariables fun name => (value? name).filter (· ≠ "")
  match path with
  | none => .ok settings
  | some path =>
    match fs.readText path with
    | .ok text => settings.overrideText text
    | .error cause => .error (.io cause)

end Settings

end RuleLint
