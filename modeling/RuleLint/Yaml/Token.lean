import RuleLint.Text.Basic
import RuleLint.Yaml.Scalar

namespace RuleLint.Yaml

open Text (Bytes encodeUtf8)

inductive Token
  | version (major minor : Nat)
  | handle (name : String) (expansion : Bytes)
  | documentStart
  | documentEnd
  | blockSequence
  | blockMapping
  | blockEnd
  | flowSequence
  | flowSequenceEnd
  | flowMapping
  | flowMappingEnd
  | item
  | comma
  | key
  | value
  | alias (name : String)
  | anchor (name : String)
  | tag (handle : String) (suffix : Bytes)
  | scalar (scalar : Scalar)
deriving DecidableEq, Repr, Inhabited

def endsName : List Char → Bool
  | [] => true
  | c :: _ => isGap c || c ∈ ['?', ':', ',', ']', '}', '%', '@', '\x60']

def anchorName? (cs : List Char) : Option (String × List Char) :=
  let name := cs.takeWhile isNameChar
  let rest := cs.dropWhile isNameChar
  if name ≠ [] ∧ endsName rest then some (String.ofList name, rest) else none

def isTagChar (c : Char) : Bool :=
  isNameChar c || c ∈ [';', '/', '?', ':', '@', '&', '=', '+', '$', '.', '!', '~', '*', '\'', '(',
    ')']

def followers? (lead : Nat) : Option Nat :=
  if lead < 0x80 then some 0
  else if 0xC0 ≤ lead ∧ lead < 0xE0 then some 1
  else if 0xE0 ≤ lead ∧ lead < 0xF0 then some 2
  else if 0xF0 ≤ lead ∧ lead < 0xF8 then some 3
  else none

def escapedByte? : List Char → Option (Nat × List Char)
  | '%' :: a :: b :: rest => do return (16 * (← Text.hexValue? a) + (← Text.hexValue? b), rest)
  | _ => none

def escapedFollowers? : Nat → List Char → Option (Bytes × List Char)
  | 0, cs => some ([], cs)
  | n + 1, cs => do
    let (byte, rest) ← escapedByte? cs
    if byte / 0x40 ≠ 2 then none
    else
      let (bytes, rest) ← escapedFollowers? n rest
      return (UInt8.ofNat byte :: bytes, rest)

def escapedBytes? (cs : List Char) : Option (Bytes × List Char) := do
  let (lead, rest) ← escapedByte? cs
  let (bytes, rest) ← escapedFollowers? (← followers? lead) rest
  return (UInt8.ofNat lead :: bytes, rest)

/-- The bytes of the longest text of tag characters that `cs` begins with, escapes undone, and what
follows it. One that is written out may hold the characters of flow sequences. Each character read
takes one from `fuel`. -/
def tagBytes? (writtenOut : Bool) : Nat → List Char → Option (Bytes × List Char)
  | 0, cs => some ([], cs)
  | _, [] => some ([], [])
  | fuel + 1, c :: rest =>
    if isTagChar c || (writtenOut && c ∈ [',', '[', ']']) then
      (tagBytes? writtenOut fuel rest).map fun (bytes, rest) =>
        (encodeUtf8 (String.singleton c) ++ bytes, rest)
    else if c = '%' then do
      let (front, rest) ← escapedBytes? (c :: rest)
      let (bytes, rest) ← tagBytes? writtenOut fuel rest
      return (front ++ bytes, rest)
    else some ([], c :: rest)

def beforeZero (bytes : Bytes) : Bytes := bytes.takeWhile (· ≠ 0)

def tagHandle? : List Char → Option (List Char × List Char)
  | '!' :: cs =>
    let name := cs.takeWhile isNameChar
    match cs.dropWhile isNameChar with
    | '!' :: rest => some ('!' :: name ++ ['!'], rest)
    | rest => some ('!' :: name, rest)
  | _ => none

/-- A tag that is written out, or one with a handle, and what follows it. The handle `!` alone is
taken off a tag of its own, and `!` alone is a tag without a handle. -/
def tagParts? (cs : List Char) : Option (String × Bytes × List Char) :=
  match cs with
  | '!' :: '<' :: cs => do
    match ← tagBytes? true cs.length cs with
    | ([], _) => none
    | (bytes, '>' :: rest) => return ("", beforeZero bytes, rest)
    | _ => none
  | cs => do
    let (handle, rest) ← tagHandle? cs
    let (bytes, rest) ← tagBytes? false rest.length rest
    if handle.length > 1 ∧ handle.getLast? = some '!' then
      if bytes = [] then none
      else return (String.ofList handle, beforeZero bytes, rest)
    else
      match beforeZero (encodeUtf8 (String.ofList handle.tail) ++ bytes) with
      | [] => return ("", encodeUtf8 "!", rest)
      | suffix => return ("!", suffix, rest)

def tag? (inFlow : Bool) (cs : List Char) : Option (Token × List Char) := do
  let (handle, suffix, rest) ← tagParts? cs
  if endsWord rest || (inFlow && rest.head? = some ',') then return (.tag handle suffix, rest)
  else none

def versionNumber? (cs : List Char) : Option (Nat × List Char) :=
  let digits := cs.takeWhile Char.isDigit
  if digits = [] ∨ 9 < digits.length then none
  else
    some (digits.foldl (fun n d => 10 * n + (d.toNat - '0'.toNat)) 0, cs.dropWhile Char.isDigit)

def directive? (cs : List Char) : Option (Token × List Char) := do
  let name := cs.takeWhile isNameChar
  let rest := cs.dropWhile isNameChar
  let value := rest.dropWhile isBlank
  if !endsWord rest then none
  else if name = ['Y', 'A', 'M', 'L'] then
    match ← versionNumber? value with
    | (major, '.' :: rest) =>
      let (minor, rest) ← versionNumber? rest
      return (.version major minor, rest)
    | _ => none
  else if name = ['T', 'A', 'G'] then
    let (handle, rest) ← tagHandle? value
    let expansion := rest.dropWhile isBlank
    if handle.getLast? ≠ some '!' ∨ !rest.head?.any isBlank then none
    else
      match ← tagBytes? true expansion.length expansion with
      | ([], _) => none
      | (bytes, rest) =>
        if endsWord rest then return (.handle (String.ofList handle) (beforeZero bytes), rest)
        else none
  else none

end RuleLint.Yaml
