import RuleLint.Command.Run
import RuleLint.Text.Timestamp
import RuleLint.Watch
import Std.Time.DateTime.Timestamp

namespace RuleLint.Main

open File (Path Location FileSystem Entry)

def readEntry (l : Location) : IO (Option Entry) := do
  try
    let path ← IO.FS.realPath l.path.text
    if ← path.isDir then return some .directory
    return some (.file (← IO.FS.readBinFile path).toList)
  catch _ => return none

def readNames (l : Location) : IO (List String) := do
  try
    let path ← IO.FS.realPath l.path.text
    return (← path.readDir).toList.map fun entry => entry.fileName
  catch _ => return []

def addLocation (files : FileSystem) (l : Location) : IO FileSystem := do
  let mut files := files
  for i in List.range l.length do
    let l := l.take (i + 1)
    if (files.entry? l).isNone then
      if let some entry ← readEntry l then
        files := files.put l entry
  return files

def addDirectory (files : FileSystem) (l : Location) : IO FileSystem := do
  let mut files ← addLocation files l
  for name in ← readNames l do
    files ← addLocation files (l ++ [name])
  return files

def locationsOf (files : FileSystem) (p : Path) : List Location :=
  let walk := fun (l : Location) name =>
    if name = "." then l else if name = ".." then l.dropLast else l ++ [name]
  (List.range (p.steps.length + 1)).map fun i => (p.steps.take i).foldl walk (files.start p)

/-- The picture with all that a path may be about: what it goes through, and what stands in the
directory it leads to or that holds the file it leads to. -/
def addPath (files : FileSystem) (p : Path) : IO FileSystem := do
  let mut files := files
  for l in locationsOf files p do
    files ← addLocation files l
  match (locationsOf files p).getLast? with
  | some l =>
    if files.entry? l = some .directory then addDirectory files l
    else addDirectory files l.dropLast
  | none => return files

def pathsOf (argument : String) : List Path :=
  let (name, value) := Command.splitOption argument
  ⟨name⟩ :: (value.map File.Path.mk).toList

def workingDirectory : IO Location := do
  let path ← IO.FS.realPath (← IO.currentDir)
  return (File.Path.mk path.toString).plainLocation?.getD []

def takePicture (paths : List Path) : IO FileSystem := do
  let directory ← workingDirectory
  let mut files : FileSystem := ⟨[], directory⟩
  for i in List.range (directory.length + 1) do
    files ← addLocation files (directory.take i ++ [Dotenv.fileName])
  for p in paths do
    files ← addPath files p
  return files

def ownVariables : List String :=
  [Command.settingsVariable, "RULECHECK_BINARY_EXTENSION", "RULECHECK_HOST_MODULES",
    "RULECHECK_CACHE_POLICY"]

def namesIn (text : String) : List String :=
  let isNameChar (c : Char) : Bool := c.isAlphanum || c = '_' || c = '.'
  let given := text.splitToList fun c => !isNameChar c
  let braced := text.splitToList fun c => c = '\x7b' || c = '\x7d'
  let bare := text.splitToList fun c => !Text.isAlphanumeric c
  (given ++ braced ++ bare).filter (· ≠ "")

def readEnvironment (files : FileSystem) : IO Variables := do
  let bytes := (Dotenv.find? files files.workingDirectory).getD []
  let mentioned := namesIn ((Text.decodeUtf8? bytes).getD "")
  let mut environment := []
  for name in ownVariables ++ mentioned do
    if let some value ← IO.getEnv name then
      environment := (name, value) :: environment
  return environment

def now : IO String := do
  let time := (← Std.Time.Timestamp.now).val
  return (Text.Timestamp.mk time.second.val.toNat time.nano.val.toNat).text

def writeChanges (before after : FileSystem) : IO Unit := do
  for (l, entry) in after.entries do
    match entry with
    | .directory => pure ()
    | .file bytes =>
      if before.entry? l ≠ some (.file bytes) then
        let path := l.path
        let temporary := Image.temporary path (path.fileName?.getD "")
        IO.FS.writeBinFile temporary.text ⟨bytes.toArray⟩
        IO.FS.rename temporary.text path.text

def emit (text : String) : IO Unit := do
  let output ← IO.getStdout
  output.putStr text
  output.flush

def readTimes (l : Location) : IO (List (Path × Int × Nat)) := do
  let mut times := []
  for name in ← readNames l do
    try
      let path := Location.path (l ++ [name])
      let modified := (← (← IO.FS.realPath path.text).metadata).modified
      times := (path, modified.sec, modified.nsec.toNat) :: times
    catch _ => pure ()
  return times

def lookInterval : Nat := 100

partial def awaitQuiet (directory : Location) (pause : Nat) (times : List (Path × Int × Nat)) :
    IO (List (Path × Int × Nat)) := do
  IO.sleep pause.toUInt32
  let later ← readTimes directory
  if later.all (times.contains ·) then return later else awaitQuiet directory pause later

partial def watch (directory : Location) (w : Command.Watched) (times : List (Path × Int × Nat)) :
    IO Unit := do
  IO.sleep lookInterval.toUInt32
  let later ← readTimes directory
  let changed := (later.filter fun entry => !times.contains entry).map (·.1)
  if Watch.touches ⟨.modify, changed⟩ w.binary then
    let later ← awaitQuiet directory w.pause later
    let files ← takePicture [w.binary]
    match files.canonicalize w.binary with
    | .error _ => watch directory w later
    | .ok _ =>
      let (text, w) := w.again files (← now)
      emit text
      watch directory w later
  else watch directory w later

def run (arguments : List String) : IO UInt32 := do
  let settingsFile ← IO.getEnv Command.settingsVariable
  let files ← takePicture (arguments.flatMap pathsOf ++ (settingsFile.map File.Path.mk).toList)
  let environment ← readEnvironment files
  let outcome := Command.runProgram files environment (← now) arguments
  writeChanges files outcome.files
  emit outcome.output
  IO.eprint outcome.errors
  match outcome.watched with
  | none => return outcome.code.toUInt32
  | some w =>
    let directory := (w.binary.plainLocation?.getD []).dropLast
    watch directory w (← readTimes directory)
    return outcome.code.toUInt32

end RuleLint.Main

def main (arguments : List String) : IO UInt32 := RuleLint.Main.run arguments
