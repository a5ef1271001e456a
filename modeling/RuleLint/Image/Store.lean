import RuleLint.File.System
import RuleLint.Image.Codec

namespace RuleLint.Image

open File (Path FileSystem FileError)

inductive WriteError
  | io (cause : FileError)
  | invalidPath (path : Path)
deriving DecidableEq, Repr

namespace WriteError

def message : WriteError → String
  | io cause => "IO error: " ++ cause.text
  | invalidPath path => "Config error: invalid image path: " ++ path.text

def chain : WriteError → List String
  | io cause => [(io cause).message, cause.text]
  | invalidPath path => [(invalidPath path).message]

end WriteError

def temporary (path : Path) (name : String) : Path := path.sibling ("." ++ name ++ ".tmp")

/-- Writes an image. Where the temporary file cannot take the place of the image file it stays. -/
def write (fs : FileSystem) (path : Path) (image : Image) : Except WriteError Unit × FileSystem :=
  match path.fileName? with
  | none => (.error (.invalidPath path), fs)
  | some name =>
    match fs.write (temporary path name) image.encode with
    | .error cause => (.error (.io cause), fs)
    | .ok fs =>
      match fs.rename (temporary path name) path with
      | .error cause => (.error (.io cause), fs)
      | .ok fs => (.ok (), fs)

end RuleLint.Image
