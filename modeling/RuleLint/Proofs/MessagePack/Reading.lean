import Mathlib.Data.List.Forall2
import RuleLint.MessagePack
import RuleLint.Proofs.Text.Bytes

namespace RuleLint.MessagePack

open Text (Bytes bigEndian encodeUtf8 takeBytes? takeBytes?_append ofBigEndian_bigEndian)

variable {depth n width count : Nat} {bytes rest : Bytes}

theorem readNat_bigEndian (fits : n < 256 ^ width) (rest : Bytes) :
    readNat width (bigEndian width n ++ rest) = some (n, rest) := by
  have taken := takeBytes?_append (bigEndian width n) rest
  rw [Text.length_bigEndian] at taken
  simp [readNat, taken, ofBigEndian_bigEndian fits]

theorem readSized_bigEndian (fits : bytes.length < 256 ^ width) (rest : Bytes) :
    readSized width 0 (bigEndian width bytes.length ++ (bytes ++ rest)) = some (bytes, rest) := by
  simp [readSized, readNat_bigEndian fits]

theorem toNat_lead {base : Nat} (small : base + n < 256) :
    (UInt8.ofNat (base + n)).toNat = base + n := by
  rw [UInt8.toNat_ofNat', Nat.mod_eq_of_lt small]

theorem Lead.ofByte_map (small : n < 16) : Lead.ofByte (UInt8.ofNat (0x80 + n)) = .map n := by
  simp only [ofByte, toNat_lead (show 0x80 + n < 256 by omega)]
  rw [if_neg (by omega), if_pos (by omega), Nat.add_sub_cancel_left]

theorem Lead.ofByte_array (small : n < 16) : Lead.ofByte (UInt8.ofNat (0x90 + n)) = .array n := by
  simp only [ofByte, toNat_lead (show 0x90 + n < 256 by omega)]
  rw [if_neg (by omega), if_neg (by omega), if_pos (by omega), Nat.add_sub_cancel_left]

theorem Lead.ofByte_text (small : n < 32) : Lead.ofByte (UInt8.ofNat (0xA0 + n)) = .text n := by
  simp only [ofByte, toNat_lead (show 0xA0 + n < 256 by omega)]
  rw [if_neg (by omega), if_neg (by omega), if_neg (by omega), if_pos (by omega),
    Nat.add_sub_cancel_left]

section

variable {byte : UInt8}

theorem readValue_of_text (lead : Lead.ofByte byte = .text n) (bytes : Bytes) :
    readValue depth (byte :: bytes) =
      (takeBytes? n bytes).map fun (front, rest) => (.text front, rest) := by
  rw [readValue, lead, Option.map_eq_bind]
  rfl

theorem readValue_of_sizedText (lead : Lead.ofByte byte = .sizedText width) (bytes : Bytes) :
    readValue depth (byte :: bytes) =
      (readSized width 0 bytes).map fun (front, rest) => (.text front, rest) := by
  rw [readValue, lead, Option.map_eq_bind]
  rfl

theorem readValue_of_array (lead : Lead.ofByte byte = .array count) (bytes : Bytes) :
    readValue (depth + 1) (byte :: bytes) =
      (readMany (readValue depth) count bytes).map fun (items, rest) => (.array items, rest) := by
  rw [readValue, lead, Option.map_eq_bind]
  rfl

theorem readValue_of_sizedArray (lead : Lead.ofByte byte = .sizedArray width)
    (counted : readNat width bytes = some (count, rest)) :
    readValue (depth + 1) (byte :: bytes) =
      (readMany (readValue depth) count rest).map fun (items, rest) => (.array items, rest) := by
  simp only [readValue, lead, counted, Option.map_eq_bind]
  rfl

theorem readValue_of_map (lead : Lead.ofByte byte = .map count) (bytes : Bytes) :
    readValue (depth + 1) (byte :: bytes) =
      (readMany (readPair (readValue depth)) count bytes).map
        fun (entries, rest) => (.map entries, rest) := by
  rw [readValue, lead, Option.map_eq_bind]
  rfl

theorem readValue_of_sizedMap (lead : Lead.ofByte byte = .sizedMap width)
    (counted : readNat width bytes = some (count, rest)) :
    readValue (depth + 1) (byte :: bytes) =
      (readMany (readPair (readValue depth)) count rest).map
        fun (entries, rest) => (.map entries, rest) := by
  simp only [readValue, lead, counted, Option.map_eq_bind]
  rfl

end

theorem readValue_writeText (s : String) (fits : (encodeUtf8 s).length < 2 ^ 32) (rest : Bytes) :
    readValue depth (writeText s ++ rest) = some (.text (encodeUtf8 s), rest) := by
  unfold writeText
  generalize encodeUtf8 s = bytes at fits
  by_cases single : 32 ≤ bytes.length ∧ bytes.length < Nat.pow 2 8
  · have written : [UInt8.ofNat bytes.length] = bigEndian 1 bytes.length := by simp [bigEndian]
    simp only [if_pos single]
    change readValue depth (0xD9 :: ([UInt8.ofNat bytes.length] ++ bytes ++ rest)) = _
    rw [readValue_of_sizedText rfl, written, List.append_assoc, readSized_bigEndian single.2]
    rfl
  · simp only [if_neg single, writeCount]
    split
    · rename_i small
      rw [List.singleton_append, List.cons_append, readValue_of_text (Lead.ofByte_text small),
        takeBytes?_append]
      rfl
    · split
      · rename_i short
        rw [List.cons_append, List.cons_append, readValue_of_sizedText rfl, List.append_assoc,
          readSized_bigEndian short]
        rfl
      · rw [List.cons_append, List.cons_append, readValue_of_sizedText rfl, List.append_assoc,
          readSized_bigEndian fits]
        rfl

theorem readValue_arrayCount (fits : count < 2 ^ 32) (bytes : Bytes) :
    readValue (depth + 1) (writeCount 16 0x90 0xDC count ++ bytes) =
      (readMany (readValue depth) count bytes).map fun (items, rest) => (.array items, rest) := by
  unfold writeCount
  split
  · rename_i small
    exact readValue_of_array (Lead.ofByte_array small) bytes
  · split
    · rename_i short
      exact readValue_of_sizedArray rfl (readNat_bigEndian (show count < 256 ^ 2 from short) bytes)
    · exact readValue_of_sizedArray rfl (readNat_bigEndian (show count < 256 ^ 4 from fits) bytes)

theorem readValue_mapCount (fits : count < 2 ^ 32) (bytes : Bytes) :
    readValue (depth + 1) (writeCount 16 0x80 0xDE count ++ bytes) =
      (readMany (readPair (readValue depth)) count bytes).map
        fun (entries, rest) => (.map entries, rest) := by
  unfold writeCount
  split
  · rename_i small
    exact readValue_of_map (Lead.ofByte_map small) bytes
  · split
    · rename_i short
      exact readValue_of_sizedMap rfl (readNat_bigEndian (show count < 256 ^ 2 from short) bytes)
    · exact readValue_of_sizedMap rfl (readNat_bigEndian (show count < 256 ^ 4 from fits) bytes)

/-- The reader takes the bytes for `x` whatever follows them, if a length of four bytes can measure
them. -/
def Reads {α : Type} (item : Reader α) (bytes : Bytes) (x : α) : Prop :=
  bytes.length < 2 ^ 32 → ∀ rest, item (bytes ++ rest) = some (x, rest)

namespace Reads

variable {α : Type} {item : Reader α} {first second : Bytes} {x y : α} {pieces : List Bytes}
  {xs : List α}

theorem pair (key : Reads item first x) (value : Reads item second y) :
    Reads (readPair item) (first ++ second) (x, y) := by
  intro short rest
  rw [List.length_append] at short
  simp [readPair, key (by omega), value (by omega)]

theorem many (each : List.Forall₂ (Reads item) pieces xs) (short : pieces.flatten.length < 2 ^ 32)
    (rest : Bytes) : readMany item pieces.length (pieces.flatten ++ rest) = some (xs, rest) := by
  induction each with
  | nil => rfl
  | cons here others ih =>
      rw [List.flatten_cons, List.length_append] at short
      simp [readMany, here (by omega), ih (by omega)]

theorem length_le (each : List.Forall₂ (Reads item) pieces xs) (refuses : item [] = none) :
    pieces.length ≤ pieces.flatten.length := by
  induction each with
  | nil => simp
  | @cons piece x pieces xs here others ih =>
      have filled : 0 < piece.length := by
        apply List.length_pos_iff.mpr
        rintro rfl
        have nothing := here (by simp) []
        simp [refuses] at nothing
      rw [List.length_cons, List.flatten_cons, List.length_append]
      omega

theorem text (depth : Nat) (s : String) :
    Reads (readValue depth) (writeText s) (.text (encodeUtf8 s)) := by
  intro short
  apply readValue_writeText
  rw [writeText, List.length_append] at short
  omega

theorem array {values : List Value} (each : List.Forall₂ (Reads (readValue depth)) pieces values) :
    Reads (readValue (depth + 1)) (writeArray pieces) (.array values) := by
  intro short rest
  rw [writeArray, List.length_append] at short
  have inner : pieces.flatten.length < 2 ^ 32 := by omega
  have count := Nat.lt_of_le_of_lt (length_le each (by simp [readValue])) inner
  rw [writeArray, List.append_assoc, readValue_arrayCount count, many each inner]
  rfl

theorem map {entries : List (String × Bytes)} {fields : List (String × Value)}
    (each : List.Forall₂ (fun e f => e.1 = f.1 ∧ Reads (readValue depth) e.2 f.2) entries fields) :
    Reads (readValue (depth + 1)) (writeMap entries)
      (.map (fields.map fun f => (.text (encodeUtf8 f.1), f.2))) := by
  have pairs : List.Forall₂ (Reads (readPair (readValue depth)))
      (entries.map fun e => writeText e.1 ++ e.2)
      (fields.map fun f => (Value.text (encodeUtf8 f.1), f.2)) := by
    rw [List.forall₂_map_left_iff, List.forall₂_map_right_iff]
    refine each.imp fun e f => ?_
    rintro ⟨name, value⟩
    exact name ▸ (text depth e.1).pair value
  intro short rest
  rw [writeMap, List.length_append, List.flatMap_def] at short
  have inner : (entries.map fun e => writeText e.1 ++ e.2).flatten.length < 2 ^ 32 :=
    Nat.lt_of_le_of_lt (Nat.le_add_left _ _) short
  have count := Nat.lt_of_le_of_lt (length_le pairs (by simp [readPair, readValue])) inner
  have read := many pairs inner rest
  rw [List.length_map] at count read
  rw [writeMap, List.append_assoc, readValue_mapCount count, List.flatMap_def, read]
  rfl

end Reads

end RuleLint.MessagePack
