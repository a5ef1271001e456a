import RuleLint.Image.Format
import RuleLint.Text.Basic
import RuleLint.Yaml.Document

namespace RuleLint.Image

open Text (Bytes encodeUtf8 decodeUtf8?)
open Yaml (Document Node Scalar Following)

namespace Manifest

def nullTag : Bytes := encodeUtf8 "tag:yaml.org,2002:null"

def isNull (text : String) : Bool := text ∈ ["", "~", "null", "Null", "NULL"]

def text (document : Document) (node : Node) : Following String := do
  match ← document.follow node with
  | .scalar _ scalar => return scalar.text
  | _ => failure

/-- A text unless the value is none. A tag that says so is refused at any other scalar. -/
def optionalText (document : Document) (node : Node) : Following (Option String) := do
  match ← document.follow node with
  | .scalar tag scalar =>
    let isNone := scalar.isPlain && isNull scalar.text
    match tag with
    | none => return if isNone then none else some scalar.text
    | some tag =>
      if !scalar.isPlain || tag ≠ nullTag then return some scalar.text
      else if isNone && scalar.text ≠ "" then return none
      else failure
  | _ => failure

def items (document : Document) (node : Node) : Following (List Node) := do
  match ← document.follow node with
  | .sequence _ items => return items
  | .scalar _ scalar => if scalar = .empty then return [] else failure
  | _ => failure

def fields (document : Document) (names : List String) (node : Node) :
    Following (List (Option Node)) := do
  match ← document.follow node with
  | .mapping _ entries =>
    let position (key : Node) : Following (Option Nat) := do
      let name ← text document key
      return names.findIdx? (· = name)
    fillSlots position entries (names.map fun _ => none)
  | _ => failure

/-- The name that a tag of its own gives a value, without its exclamation mark. A tag that is no
text gives none. -/
def tagName? : Bytes → Option String
  | [0x21] => some "!"
  | 0x21 :: name => decodeUtf8? name
  | _ => none

def choice (document : Document) (names : List String) (node : Node) : Following String := do
  match ← document.follow node with
  | .scalar tag scalar =>
    match tag >>= tagName? with
    | some name =>
      if name ∈ names ∧ scalar.isPlain ∧ isNull scalar.text then return name else failure
    | none => if scalar.text ∈ names then return scalar.text else failure
  | _ => failure

def format (document : Document) : Format Following Node where
  fields := fields document
  text := text document
  optionalText := optionalText document
  items := items document
  choice := choice document

end Manifest

inductive ManifestError
  | notYaml
  | notImage
deriving DecidableEq, Repr

def ManifestError.message : ManifestError → String
  | notYaml => "Manifest error: the text is not one YAML document"
  | notImage => "Manifest error: the document describes no module"

def ofManifest (text : String) : Except ManifestError Image :=
  match Document.parse text with
  | none => .error .notYaml
  | some document =>
    match ((Manifest.format document).image document.root).run document.aliasLimit with
    | some (image, _) => .ok image
    | none => .error .notImage

end RuleLint.Image
