import RuleLint.Image.Manifest
import RuleLint.Image.Store
import RuleLint.Settings.Basic

namespace RuleLint

open File (Path FileSystem FileError)
open Image (ManifestError WriteError)

inductive PackError
  | read (manifest : Path) (cause : FileError)
  | parse (manifest : Path) (cause : ManifestError)
  | write (output : Path) (cause : WriteError)
deriving DecidableEq, Repr

def PackError.chain : PackError → List String
  | read manifest cause => ["failed to read manifest: " ++ manifest.text, cause.text]
  | parse manifest cause => ["failed to parse manifest: " ++ manifest.text, cause.message]
  | write output cause => ("failed to write module image: " ++ output.text) :: cause.chain

namespace Pack

def defaultOutput (settings : Settings) (manifest : Path) (image : Image) : Path :=
  (manifest.parent?.getD ⟨"."⟩).join (image.name ++ "." ++ settings.extension)

def run (settings : Settings) (fs : FileSystem) (manifest : Path) (output : Option Path) :
    Except PackError Path × FileSystem :=
  match fs.readText manifest with
  | .error cause => (.error (.read manifest cause), fs)
  | .ok text =>
    match Image.ofManifest text with
    | .error cause => (.error (.parse manifest cause), fs)
    | .ok image =>
      let path := output.getD (defaultOutput settings manifest image)
      match Image.write fs path image with
      | (.error cause, fs) => (.error (.write path cause), fs)
      | (.ok (), fs) => (.ok path, fs)

end Pack

end RuleLint
