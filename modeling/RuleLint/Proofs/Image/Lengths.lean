import Mathlib.Algebra.Order.BigOperators.Group.List
import Mathlib.Algebra.Order.Group.Nat
import RuleLint.Proofs.Image.RoundTrip

namespace RuleLint.Image

open MessagePack (writeText writeArray writeMap)
open Text (Bytes encodeUtf8 littleEndian ofLittleEndian)

def declaredLength (bytes : Bytes) : Nat := ofLittleEndian ((bytes.drop 6).take 4)

/-- The header declares the length of the payload modulo `2 ^ 32`, whatever the payload, so the bytes
are refused for their length if it is `2 ^ 32` or more. -/
theorem encode_declares (image : Image) :
    declaredLength image.encode = image.payload.length % 2 ^ 32 ∧
    image.encode.drop headerLength = image.payload ∧
    decode image.encode =
      if image.payload.length < 2 ^ 32 then .ok image
      else .error (.lengthMismatch (image.payload.length % 2 ^ 32) image.payload.length) := by
  refine ⟨?_, rfl, decode_encode_eq image⟩
  have rest : image.encode.drop 6 = littleEndian 4 image.payload.length ++ image.payload := rfl
  rw [declaredLength, rest, List.take_left' (Text.length_littleEndian _ _),
    Text.ofLittleEndian_littleEndian]
  rfl

theorem length_le_writeText (s : String) : (encodeUtf8 s).length ≤ (writeText s).length := by
  simp [writeText]

theorem sum_le_writeArray (items : List Bytes) :
    (items.map List.length).sum ≤ (writeArray items).length := by
  simp [writeArray, List.length_flatten]

theorem length_le_writeMap {entries : List (String × Bytes)} {name : String} {value : Bytes}
    (member : (name, value) ∈ entries) : value.length ≤ (writeMap entries).length := by
  obtain ⟨before, after, rfl⟩ := List.append_of_mem member
  simp only [writeMap, List.flatMap_append, List.flatMap_cons, List.length_append]
  omega

theorem TypeDef.variants_le (t : TypeDef) :
    (t.variants.map fun v => (encodeUtf8 v).length).sum ≤ t.payload.length :=
  calc (t.variants.map fun v => (encodeUtf8 v).length).sum
    _ ≤ (t.variants.map fun v => (writeText v).length).sum :=
      List.sum_le_sum fun v _ => length_le_writeText v
    _ = ((t.variants.map writeText).map List.length).sum := by rw [List.map_map]; rfl
    _ ≤ (writeArray (t.variants.map writeText)).length := sum_le_writeArray _
    _ ≤ t.payload.length := @length_le_writeMap _ "variants" _ (by simp)

theorem types_le (image : Image) :
    (image.types.map fun t => t.payload.length).sum ≤ image.payload.length :=
  calc (image.types.map fun t => t.payload.length).sum
    _ = ((image.types.map TypeDef.payload).map List.length).sum := by rw [List.map_map]; rfl
    _ ≤ (writeArray (image.types.map TypeDef.payload)).length := sum_le_writeArray _
    _ ≤ image.payload.length := @length_le_writeMap _ "types" _ (by simp)

/-! Images with many types that have many long variants. If there are enough of them the header declares
too little. -/

namespace Oversized

def type (variants size : Nat) : TypeDef :=
  ⟨"T", none, .object, [], [], List.replicate variants (.ofList (List.replicate size 'a'))⟩

def image (types variants size : Nat) : Image :=
  ⟨"A", none, [], List.replicate types (type variants size)⟩

theorem length_replicate (size : Nat) :
    (encodeUtf8 (.ofList (List.replicate size 'a'))).length = size := by
  have bytes : (String.ofList (List.replicate size 'a')).utf8ByteSize = size := by
    induction size with
    | zero => rfl
    | succ size ih =>
        have one : 'a'.utf8Size = 1 := rfl
        rw [List.replicate_succ, String.ofList_cons, String.utf8ByteSize_append,
          String.utf8ByteSize_singleton, ih, one, Nat.add_comm]
  exact bytes

theorem le_payload (types variants size : Nat) :
    types * (variants * size) ≤ (image types variants size).payload.length := by
  have each := (type variants size).variants_le
  have all := types_le (image types variants size)
  rw [type, List.map_replicate, List.sum_replicate_nat, length_replicate] at each
  rw [image, List.map_replicate, List.sum_replicate_nat] at all
  exact (Nat.mul_le_mul_left types each).trans all

theorem declares_less :
    declaredLength (image 331 500 26000).encode <
      ((image 331 500 26000).encode.drop headerLength).length ∧
    ∃ declared found,
      decode (image 331 500 26000).encode = .error (.lengthMismatch declared found) := by
  have long := le_payload 331 500 26000
  obtain ⟨declared, payload, decoded⟩ := encode_declares (image 331 500 26000)
  generalize image 331 500 26000 = image at *
  rw [declared, payload]
  exact ⟨by omega, _, _, decoded.trans (if_neg (by omega))⟩

end Oversized

end RuleLint.Image
