import RuleLint.Image.Format
import RuleLint.MessagePack

/-!
The bytes of a module image: a header of ten bytes, which are a mark, the version of the format
and the length of the payload, and then the payload, which is the image as a MessagePack record.
-/

namespace RuleLint.Image

open MessagePack (Value writeText writeArray writeMap)
open Text (Bytes littleEndian ofLittleEndian)

def magic : Bytes := [0x52, 0x43, 0x4B, 0x4D]

def formatVersion : Nat := 1

def headerLength : Nat := 10

def maxNesting : Nat := 1023

def optionalEntry (name : String) (value : Option String) : List (String × Bytes) :=
  match value with
  | some text => [(name, writeText text)]
  | none => []

def Annotation.payload (a : Annotation) : Bytes :=
  writeMap ([("name", writeText a.name)] ++ optionalEntry "base" a.base ++
    [("args", writeArray (a.args.map writeText))])

def Field.payload (f : Field) : Bytes :=
  writeMap [("name", writeText f.name), ("ty", writeText f.ty),
    ("annotations", writeArray (f.annotations.map Annotation.payload))]

def Param.payload (p : Param) : Bytes :=
  writeMap [("name", writeText p.name), ("ty", writeText p.ty)]

def Method.payload (m : Method) : Bytes :=
  writeMap [("name", writeText m.name), ("params", writeArray (m.params.map Param.payload)),
    ("returns", writeText m.returns)]

def TypeDef.payload (t : TypeDef) : Bytes :=
  writeMap ([("name", writeText t.name)] ++ optionalEntry "namespace" t.qualifier ++
    [("kind", writeText t.kind.text), ("fields", writeArray (t.fields.map Field.payload)),
      ("methods", writeArray (t.methods.map Method.payload)),
      ("variants", writeArray (t.variants.map writeText))])

def Reference.payload (r : Reference) : Bytes :=
  writeMap ([("name", writeText r.name)] ++ optionalEntry "version" r.version)

def payload (image : Image) : Bytes :=
  writeMap ([("name", writeText image.name)] ++ optionalEntry "version" image.version ++
    [("references", writeArray (image.references.map Reference.payload)),
      ("types", writeArray (image.types.map TypeDef.payload))])

def encode (image : Image) : Bytes :=
  let payload := image.payload
  magic ++ littleEndian 2 formatVersion ++ littleEndian 4 payload.length ++ payload

def fieldPosition? (names : List String) : Value → Option (Option Nat)
  | .unsigned n => some (if n < names.length then some n else none)
  | key => key.bytes?.map fun bytes => names.findIdx? (Text.encodeUtf8 · = bytes)

/-- A record is a map whose keys are fields, in any order, or an array with the fields in order,
the last of which may be left out. -/
def packedFields? (names : List String) : Value → Option (List (Option Value))
  | .map entries => fillSlots (fieldPosition? names) entries (names.map fun _ => none)
  | .array items =>
    if items.length ≤ names.length then
      some (items.map some ++ List.replicate (names.length - items.length) none)
    else none
  | _ => none

def packedName? (names : List String) : Value → Option String
  | .unsigned n => names[n]?
  | v => v.string?.filter (· ∈ names)

/-- MessagePack as a format that describes images. No bytes are a list without items. The name of a
choice may also be the only key of a map, with the value nil. -/
def packed : Format Option Value where
  fields := packedFields?
  text := Value.string?
  optionalText v :=
    match v with
    | .nil => some none
    | v => v.string?.map some
  items v :=
    match v with
    | .array items => some items
    | .binary [] => some []
    | _ => none
  choice names v :=
    match v with
    | .map [(name, .nil)] => packedName? names name
    | v => packedName? names v

def ofPayload? (payload : Bytes) : Option Image := do
  let (value, _) ← MessagePack.readValue maxNesting payload
  packed.image value

inductive DecodeError
  | tooShort (length : Nat)
  | missingMagic
  | unsupportedVersion (version : Nat)
  | lengthMismatch (declared found : Nat)
  | invalidPayload
deriving DecidableEq, Repr

def DecodeError.message : DecodeError → String
  | tooShort length =>
    "Malformed module image: image is " ++ toString length ++ " bytes, shorter than the " ++
      toString headerLength ++ "-byte header"
  | missingMagic => "Malformed module image: missing RCKM magic"
  | unsupportedVersion version =>
    "Unsupported module image format version " ++ toString version
  | lengthMismatch declared found =>
    "Malformed module image: payload length mismatch: header says " ++ toString declared ++
      ", found " ++ toString found
  | invalidPayload => "Malformed module image: the payload describes no module"

/-- The image that the bytes describe. Length, mark, version and payload length are checked in
this order before the payload is read. -/
def decode (bytes : Bytes) : Except DecodeError Image :=
  let header := bytes.take headerLength
  let payload := bytes.drop headerLength
  let version := ofLittleEndian ((header.drop 4).take 2)
  let declared := ofLittleEndian (header.drop 6)
  if bytes.length < headerLength then .error (.tooShort bytes.length)
  else if header.take 4 ≠ magic then .error .missingMagic
  else if version ≠ formatVersion then .error (.unsupportedVersion version)
  else if payload.length ≠ declared then .error (.lengthMismatch declared payload.length)
  else
    match ofPayload? payload with
    | some image => .ok image
    | none => .error .invalidPayload

end RuleLint.Image
