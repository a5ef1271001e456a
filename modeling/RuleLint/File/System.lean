import RuleLint.File.Path
import RuleLint.Text.Basic

/-!
Trees of files as values. A tree maps locations to regular files and directories; the root is a
directory. A path is walked name by name from the root or the working directory, and every name
but the last has to lead to a directory.
-/

namespace RuleLint.File

open Text (Bytes)

inductive FileError
  | missing
  | alreadyExists
  | notDirectory
  | isDirectory
  | nameTooLong
  | busy
  | nulInPath
  | notText
deriving DecidableEq, Repr

def FileError.text : FileError → String
  | missing => "No such file or directory (os error 2)"
  | busy => "Device or resource busy (os error 16)"
  | alreadyExists => "File exists (os error 17)"
  | notDirectory => "Not a directory (os error 20)"
  | isDirectory => "Is a directory (os error 21)"
  | nameTooLong => "File name too long (os error 36)"
  | nulInPath => "file name contained an unexpected NUL byte"
  | notText => "stream did not contain valid UTF-8"

inductive Entry
  | file (bytes : Bytes)
  | directory
deriving DecidableEq, Repr

structure FileSystem where
  entries : List (Location × Entry)
  workingDirectory : Location
deriving Repr, Inhabited

def maxNameBytes : Nat := 255

def maxPathBytes : Nat := 4095

namespace FileSystem

def entry? (fs : FileSystem) (l : Location) : Option Entry :=
  if l = [] then some .directory else fs.entries.lookup l

def put (fs : FileSystem) (l : Location) (e : Entry) : FileSystem :=
  { fs with entries := (l, e) :: fs.entries.filter (·.1 ≠ l) }

def erase (fs : FileSystem) (l : Location) : FileSystem :=
  { fs with entries := fs.entries.filter fun (l', _) => !l.isPrefixOf l' }

def step (fs : FileSystem) (l : Location) (name : String) : Except FileError Location :=
  match fs.entry? l with
  | some .directory =>
    if name = "." then .ok l
    else if name = ".." then .ok l.dropLast
    else if maxNameBytes < name.utf8ByteSize then .error .nameTooLong
    else if (fs.entry? (l ++ [name])).isSome then .ok (l ++ [name])
    else .error .missing
  | _ => .error .notDirectory

def start (fs : FileSystem) (p : Path) : Location :=
  if p.isAbsolute then [] else fs.workingDirectory

def checkPath (p : Path) : Except FileError Unit :=
  if p.text.toList.contains '\x00' then .error .nulInPath
  else if p.text = "" then .error .missing
  else .ok ()

def checkLength (p : Path) : Except FileError Unit := do
  checkPath p
  if maxPathBytes < p.text.utf8ByteSize then .error .nameTooLong else .ok ()

/-- The location a path leads to. The path is walked name by name, so its length does not matter. -/
def canonicalize (fs : FileSystem) (p : Path) : Except FileError Location := do
  checkPath p
  p.steps.foldlM fs.step (fs.start p)

def readAt (fs : FileSystem) (l : Location) : Except FileError Bytes :=
  match fs.entry? l with
  | some (.file bytes) => .ok bytes
  | some .directory => .error .isDirectory
  | none => .error .missing

def read (fs : FileSystem) (p : Path) : Except FileError Bytes := do
  checkLength p
  fs.readAt (← fs.canonicalize p)

def readText (fs : FileSystem) (p : Path) : Except FileError String := do
  match Text.decodeUtf8? (← fs.read p) with
  | some text => return text
  | none => .error .notText

/-- The directory and the name at which a path would create something. The name is `.` or `..`
where the path does not end in a proper one. -/
def target (fs : FileSystem) (p : Path) : Except FileError (Location × String) := do
  checkLength p
  let names := p.pieces.filter (· ≠ "")
  let parent ← names.dropLast.foldlM fs.step (fs.start p)
  let name := names.getLast?.getD "."
  match fs.entry? parent with
  | some .directory =>
    if maxNameBytes < name.utf8ByteSize then .error .nameTooLong else return (parent, name)
  | _ => .error .notDirectory

def endsInSlash (p : Path) : Bool := p.text.toList.getLast? = some '/'

def write (fs : FileSystem) (p : Path) (bytes : Bytes) : Except FileError FileSystem := do
  let (parent, name) ← fs.target p
  if name = "." ∨ name = ".." then .error .isDirectory
  else
    match fs.entry? (parent ++ [name]) with
    | some .directory => .error .isDirectory
    | some (.file _) =>
      if endsInSlash p then .error .notDirectory
      else return fs.put (parent ++ [name]) (.file bytes)
    | none =>
      if endsInSlash p then .error .isDirectory
      else return fs.put (parent ++ [name]) (.file bytes)

def rename (fs : FileSystem) (source destination : Path) : Except FileError FileSystem := do
  let (parent, name) ← fs.target destination
  if name = "." ∨ name = ".." then .error .busy
  else
    checkLength source
    let origin ← fs.canonicalize source
    let bytes ← fs.readAt origin
    if endsInSlash destination then .error .notDirectory
    else
      match fs.entry? (parent ++ [name]) with
      | some .directory => .error .isDirectory
      | _ => return (fs.erase origin).put (parent ++ [name]) (.file bytes)

def makeStep (fs : FileSystem) (l : Location) (name : String) :
    Except FileError (FileSystem × Location) :=
  match fs.step l name with
  | .ok l => .ok (fs, l)
  | .error .missing => .ok (fs.put (l ++ [name]) .directory, l ++ [name])
  | .error cause => .error cause

def createDirectories (fs : FileSystem) (p : Path) : Except FileError FileSystem := do
  checkLength p
  let (fs, l) ← p.steps.foldlM (fun (fs, l) name => fs.makeStep l name) (fs, fs.start p)
  match fs.entry? l with
  | some .directory => return fs
  | _ => .error .alreadyExists

def names (fs : FileSystem) (l : Location) : List String :=
  fs.entries.filterMap fun (l', _) => if l'.dropLast = l then l'.getLast? else none

end FileSystem

end RuleLint.File
