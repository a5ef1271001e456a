import RuleLint.Text.Basic

/-!
MessagePack. A text keeps its bytes as they stand, whether they are UTF-8 or not, and an integer
remembers whether it was written with a sign. Values are written in their shortest forms and read
from every form, in every width; arrays and maps may be nested only so deep, and an extension takes
a level as they do.
-/

namespace RuleLint.MessagePack

open Text (Bytes bigEndian ofBigEndian takeBytes?)

inductive Value
  | nil
  | bool (value : Bool)
  | unsigned (value : Nat)
  | signed (value : Int)
  | float (bytes : Bytes)
  | text (bytes : Bytes)
  | binary (bytes : Bytes)
  | extension (bytes : Bytes)
  | array (items : List Value)
  | map (entries : List (Value × Value))
deriving Inhabited, Repr

namespace Value

def bytes? : Value → Option Bytes
  | text bytes => some bytes
  | binary bytes => some bytes
  | _ => none

def string? (v : Value) : Option String := v.bytes? >>= Text.decodeUtf8?

end Value

/-! ## Writing from parts that are written already -/

/-- The shortest form of a length: in the first byte if it is below `small`, else in two or four
bytes after it. -/
def writeCount (small fixed wide : Nat) (count : Nat) : Bytes :=
  if count < small then [UInt8.ofNat (fixed + count)]
  else if count < Nat.pow 2 16 then UInt8.ofNat wide :: bigEndian 2 count
  else UInt8.ofNat (wide + 1) :: bigEndian 4 count

def writeText (s : String) : Bytes :=
  let bytes := Text.encodeUtf8 s
  let length :=
    if 32 ≤ bytes.length ∧ bytes.length < Nat.pow 2 8 then [0xD9, UInt8.ofNat bytes.length]
    else writeCount 32 0xA0 0xDA bytes.length
  length ++ bytes

def writeArray (items : List Bytes) : Bytes :=
  writeCount 16 0x90 0xDC items.length ++ items.flatten

def writeMap (entries : List (String × Bytes)) : Bytes :=
  writeCount 16 0x80 0xDE entries.length ++
    entries.flatMap fun (name, value) => writeText name ++ value

/-! ## Reading from the front of a byte string -/

abbrev Reader (α : Type) : Type := Bytes → Option (α × Bytes)

def readNat (width : Nat) : Reader Nat := fun bytes => do
  let (front, rest) ← takeBytes? width bytes
  return (ofBigEndian front, rest)

def readInt (width : Nat) : Reader Int := fun bytes => do
  let (n, rest) ← readNat width bytes
  return (if n < Nat.pow 256 width / 2 then (n : Int) else (n : Int) - (Nat.pow 256 width : Nat), rest)

def readSized (width extra : Nat) : Reader Bytes := fun bytes => do
  let (n, rest) ← readNat width bytes
  takeBytes? (n + extra) rest

def readMany {α : Type} (item : Reader α) : Nat → Reader (List α)
  | 0 => fun bytes => some ([], bytes)
  | count + 1 => fun bytes => do
    let (first, rest) ← item bytes
    let (others, rest) ← readMany item count rest
    return (first :: others, rest)

def readPair {α : Type} (item : Reader α) : Reader (α × α) := fun bytes => do
  let (key, rest) ← item bytes
  let (value, rest) ← item rest
  return ((key, value), rest)

inductive Lead
  | value (value : Value)
  | unsigned (width : Nat)
  | signed (width : Nat)
  | float (width : Nat)
  | text (length : Nat)
  | sizedText (width : Nat)
  | sizedBinary (width : Nat)
  | extension (length : Nat)
  | sizedExtension (width : Nat)
  | array (count : Nat)
  | sizedArray (width : Nat)
  | map (count : Nat)
  | sizedMap (width : Nat)
  | reserved
deriving Repr

def Lead.ofByte (byte : UInt8) : Lead :=
  let n := byte.toNat
  if n < 0x80 then value (.unsigned n)
  else if n < 0x90 then map (n - 0x80)
  else if n < 0xA0 then array (n - 0x90)
  else if n < 0xC0 then text (n - 0xA0)
  else if 0xE0 ≤ n then value (.signed ((n : Int) - 0x100))
  else
    match n with
    | 0xC0 => value .nil
    | 0xC2 => value (.bool false)
    | 0xC3 => value (.bool true)
    | 0xC4 => sizedBinary 1
    | 0xC5 => sizedBinary 2
    | 0xC6 => sizedBinary 4
    | 0xC7 => sizedExtension 1
    | 0xC8 => sizedExtension 2
    | 0xC9 => sizedExtension 4
    | 0xCA => float 4
    | 0xCB => float 8
    | 0xCC => unsigned 1
    | 0xCD => unsigned 2
    | 0xCE => unsigned 4
    | 0xCF => unsigned 8
    | 0xD0 => signed 1
    | 0xD1 => signed 2
    | 0xD2 => signed 4
    | 0xD3 => signed 8
    | 0xD4 => extension 1
    | 0xD5 => extension 2
    | 0xD6 => extension 4
    | 0xD7 => extension 8
    | 0xD8 => extension 16
    | 0xD9 => sizedText 1
    | 0xDA => sizedText 2
    | 0xDB => sizedText 4
    | 0xDC => sizedArray 2
    | 0xDD => sizedArray 4
    | 0xDE => sizedMap 2
    | 0xDF => sizedMap 4
    | _ => reserved

/-- One value. At most `depth` arrays, maps and extensions may stand within one another. -/
def readValue : (depth : Nat) → Reader Value
  | depth, lead :: bytes =>
    let items (count : Nat) (bytes : Bytes) : Option (Value × Bytes) :=
      match depth with
      | 0 => none
      | depth + 1 => do
        let (items, rest) ← readMany (readValue depth) count bytes
        return (.array items, rest)
    let entries (count : Nat) (bytes : Bytes) : Option (Value × Bytes) :=
      match depth with
      | 0 => none
      | depth + 1 => do
        let (entries, rest) ← readMany (readPair (readValue depth)) count bytes
        return (.map entries, rest)
    let extension (read : Reader Bytes) : Option (Value × Bytes) :=
      match depth with
      | 0 => none
      | _ + 1 => do
        let (front, rest) ← read bytes
        return (.extension front, rest)
    match Lead.ofByte lead with
    | .value value => some (value, bytes)
    | .unsigned width => do
      let (n, rest) ← readNat width bytes
      return (.unsigned n, rest)
    | .signed width => do
      let (n, rest) ← readInt width bytes
      return (.signed n, rest)
    | .float width => do
      let (front, rest) ← takeBytes? width bytes
      return (.float front, rest)
    | .text length => do
      let (front, rest) ← takeBytes? length bytes
      return (.text front, rest)
    | .sizedText width => do
      let (front, rest) ← readSized width 0 bytes
      return (.text front, rest)
    | .sizedBinary width => do
      let (front, rest) ← readSized width 0 bytes
      return (.binary front, rest)
    | .extension length => extension (takeBytes? (length + 1))
    | .sizedExtension width => extension (readSized width 1)
    | .array count => items count bytes
    | .sizedArray width => do
      let (count, rest) ← readNat width bytes
      items count rest
    | .map count => entries count bytes
    | .sizedMap width => do
      let (count, rest) ← readNat width bytes
      entries count rest
    | .reserved => none
  | _, [] => none

end RuleLint.MessagePack
