import RuleLint.Text.Basic

namespace RuleLint.File

structure Path where
  text : String
deriving DecidableEq, Repr, Inhabited

abbrev Location : Type := List String

def Location.path (l : Location) : Path := ⟨"/" ++ "/".intercalate l⟩

namespace Path

def isAbsolute (p : Path) : Bool := p.text.toList.head? = some '/'

def pieces (p : Path) : List String := (Text.splitOn '/' p.text.toList).map String.ofList

/-- The names a walk along the path takes in turn. A slash at the end asks for a directory, as one
before a last `.` would. -/
def steps (p : Path) : List String :=
  let names := p.pieces.filter (· ≠ "")
  if p.text.toList.getLast? = some '/' ∧ names ≠ [] then names ++ ["."] else names

def plainLocation? (p : Path) : Option Location :=
  let names := p.pieces.filter fun s => s ≠ "" ∧ s ≠ "."
  if p.isAbsolute ∧ ".." ∉ names then some names else none

/-- The reverse of a path without the slashes and the `/.` at its end. A slash alone is the root
and stays. -/
def trimmedReverse : List Char → List Char
  | '/' :: c :: rest => trimmedReverse (c :: rest)
  | '.' :: '/' :: rest => trimmedReverse ('/' :: rest)
  | cs => cs

def lastComponent (p : Path) : List Char × List Char :=
  let cs := trimmedReverse p.text.toList.reverse
  (cs.takeWhile (· ≠ '/'), cs.dropWhile (· ≠ '/'))

def parent? (p : Path) : Option Path :=
  let (component, before) := p.lastComponent
  if component = [] then none
  else some ⟨String.ofList (trimmedReverse before).reverse⟩

def fileName? (p : Path) : Option String :=
  let (component, _) := p.lastComponent
  let name := String.ofList component.reverse
  if name = "" ∨ name = "." ∨ name = ".." then none else some name

def extensionOf? (name : String) : Option String :=
  let reversed := name.toList.reverse
  match reversed.dropWhile (· ≠ '.') with
  | [] => none
  | [_] => none
  | _ => some (String.ofList (reversed.takeWhile (· ≠ '.')).reverse)

def extension? (p : Path) : Option String := p.fileName? >>= extensionOf?

def join (p : Path) (child : String) : Path :=
  if (Path.mk child).isAbsolute then ⟨child⟩
  else if p.text = "" ∨ p.text.toList.getLast? = some '/' then ⟨p.text ++ child⟩
  else ⟨p.text ++ "/" ++ child⟩

def sibling (p : Path) (name : String) : Path :=
  ((p.parent?).getD p).join name

end Path

end RuleLint.File
