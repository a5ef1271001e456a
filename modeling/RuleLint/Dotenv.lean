import RuleLint.File.System
import RuleLint.Text.Alphanumeric
import RuleLint.Text.Basic

namespace RuleLint

open File (Location FileSystem)
open Text (Bytes isBlank isAlphanumeric)

abbrev Variables : Type := List (String × String)

namespace Dotenv

def fileName : String := ".env"

inductive LineState
  | word
  | blank
  | escape
  | quoted (quote : Char)
  | quotedEscape (quote : Char)
  | comment
deriving DecidableEq, Repr

def LineState.ofChar (c : Char) : LineState :=
  if c = '\\' then .escape
  else if c = '"' || c = '\'' then .quoted c
  else .word

def LineState.next (c : Char) : LineState → LineState
  | word => if isBlank c && c ≠ '\n' && c ≠ '\r' then blank else ofChar c
  | blank => if c = '#' then comment else ofChar c
  | escape => word
  | quoted quote =>
    if c = '\\' then quotedEscape quote else if c = quote then word else quoted quote
  | quotedEscape quote => quoted quote
  | comment => comment

def beforeComment (state : LineState) : List Char → List Char × LineState
  | [] => ([], state)
  | c :: rest =>
    if state.next c = .comment then ([], .comment)
    else
      let (front, last) := beforeComment (state.next c) rest
      (c :: front, last)

def withoutBreak (line : List Char) : List Char :=
  match line.reverse with
  | '\n' :: '\r' :: front => front.reverse
  | '\n' :: front => front.reverse
  | _ => line

def pieces : Bytes → List Bytes
  | [] => []
  | b :: rest =>
    if b = 10 then [b] :: pieces rest
    else
      match pieces rest with
      | piece :: others => (b :: piece) :: others
      | [] => [[b]]

/-- The lines that the pieces make up after the characters of `front`, where the walk over them is
in `state`. Open quotes join pieces. A piece that is no text, or quotes that stay open, are a
broken line. -/
def linesOf (state : LineState) (front : List Char) : List Bytes → List (Option (List Char))
  | [] => if state = .word then [] else [none]
  | piece :: pieces =>
    match Text.decodeUtf8? piece with
    | none => [none]
    | some text =>
      let line := front ++ text.toList
      if (line.dropWhile isBlank).head? = some '#' then some [] :: linesOf .word [] pieces
      else
        match beforeComment state text.toList with
        | (_, .word) => some (withoutBreak line) :: linesOf .word [] pieces
        | (kept, .comment) => some (front ++ kept) :: linesOf .word [] pieces
        | (_, state) => linesOf state line pieces

inductive ValueState
  | plain
  | escape
  | name (name : List Char)
  | bracedName (name : List Char)
  | ended
deriving DecidableEq, Repr

def valueOf (environment : Variables) (name : List Char) : List Char :=
  ((environment.lookup (String.ofList name)).getD "").toList

def escaped? : Char → Option Char
  | 'n' => some '\n'
  | c => if c ∈ ['\\', '\'', '"', '$', ' '] then some c else none

/-- The rest of a value, where the walk over it is in `state`, inside `quote` if there is one. The
character that ends a name without braces stands for itself. -/
def readValue (environment : Variables) (quote : Option Char) (state : ValueState) :
    List Char → Option (List Char)
  | [] =>
    match state, quote with
    | .bracedName _, _ => none
    | _, some _ => none
    | .name name, none => some (valueOf environment name)
    | _, none => some []
  | c :: rest =>
    match state with
    | .ended =>
      if c = ' ' || c = '\t' then readValue environment quote .ended rest
      else if c = '#' then some []
      else none
    | .escape => do return (← escaped? c) :: (← readValue environment quote .plain rest)
    | .name name =>
      if isAlphanumeric c then readValue environment quote (.name (name ++ [c])) rest
      else if c = '\x7b' && name.isEmpty then readValue environment quote (.bracedName []) rest
      else do
        let tail ←
          if c = '$' then readValue environment quote (.name []) rest
          else (readValue environment quote .plain rest).map (c :: ·)
        return valueOf environment name ++ tail
    | .bracedName name =>
      if c = '\x7d' then
        (readValue environment quote .plain rest).map (valueOf environment name ++ ·)
      else readValue environment quote (.bracedName (name ++ [c])) rest
    | .plain =>
      let keep := (readValue environment quote .plain rest).map (c :: ·)
      match quote, c with
      | some '\'', '\'' => readValue environment none .plain rest
      | some '\'', _ => keep
      | _, '$' => readValue environment quote (.name []) rest
      | _, '\\' => readValue environment quote .escape rest
      | some _, '"' => readValue environment none .plain rest
      | some _, _ => keep
      | none, '"' | none, '\'' => readValue environment (some c) .plain rest
      | none, ' ' | none, '\t' => readValue environment none .ended rest
      | none, _ => keep

def key? (cs : List Char) : Option (String × List Char) :=
  let isKeyChar (c : Char) : Bool := c.isAlphanum || c = '_' || c = '.'
  if cs.head?.any fun c => c.isAlpha || c = '_' then
    some (String.ofList (cs.takeWhile isKeyChar), (cs.dropWhile isKeyChar).dropWhile isBlank)
  else none

def target? (line : List Char) : Option (String × List Char) := do
  match ← key? line with
  | (key, '=' :: rest) => return (key, rest.dropWhile isBlank)
  | ("export", rest) =>
    match ← key? rest with
    | (key, '=' :: rest) => return (key, rest.dropWhile isBlank)
    | _ => none
  | _ => none

/-- The variable that a line gives, if it is not empty. The outer option fails for a broken line. -/
def readLine (environment : Variables) (line : List Char) : Option (Option (String × String)) :=
  match (Text.dropEndWhile isBlank line).dropWhile isBlank with
  | [] => some none
  | '#' :: _ => some none
  | line => do
    let (key, value) ← target? line
    match value with
    | [] => return some (key, "")
    | '#' :: _ => return some (key, "")
    | value => return some (key, String.ofList (← readValue environment none .plain value))

structure Unsettable where
  name : String
deriving DecidableEq, Repr

def Unsettable.message (e : Unsettable) : String :=
  "the variable " ++ e.name ++ " cannot have a value with the zero character"

def add (environment : Variables) (name value : String) : Except Unsettable Variables :=
  if (environment.lookup name).isSome then .ok environment
  else if value.contains '\x00' then .error ⟨name⟩
  else .ok ((name, value) :: environment)

def addLines (environment : Variables) :
    List (Option (List Char)) → Except Unsettable Variables
  | [] => .ok environment
  | none :: _ => .ok environment
  | some line :: lines =>
    match readLine environment line with
    | none => .ok environment
    | some none => addLines environment lines
    | some (some (name, value)) => do addLines (← add environment name value) lines

def addText (environment : Variables) (bytes : Bytes) : Except Unsettable Variables :=
  let text :=
    match bytes with
    | 0xEF :: 0xBB :: 0xBF :: rest => rest
    | bytes => bytes
  addLines environment (linesOf .word [] (pieces text))

def find? (fs : FileSystem) (directory : Location) : Option Bytes :=
  let directories := (List.range (directory.length + 1)).reverse.map directory.take
  directories.findSome? fun directory => (fs.readAt (directory ++ [fileName])).toOption

def load (fs : FileSystem) (environment : Variables) : Except Unsettable Variables :=
  match find? fs fs.workingDirectory with
  | some bytes => addText environment bytes
  | none => .ok environment

end Dotenv

end RuleLint
