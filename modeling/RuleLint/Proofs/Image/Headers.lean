import Mathlib.Data.List.Infix
import RuleLint.Proofs.Image.Lengths

namespace RuleLint.Image

open Text (Bytes littleEndian ofLittleEndian)

def header (length : Nat) : Bytes :=
  magic ++ littleEndian 2 formatVersion ++ littleEndian 4 length

def declaredVersion (bytes : Bytes) : Nat := ofLittleEndian ((bytes.drop 4).take 2)

structure Framed (bytes : Bytes) : Prop where
  long : headerLength ≤ bytes.length
  mark : bytes.take 4 = magic
  version : declaredVersion bytes = formatVersion
  length : declaredLength bytes = (bytes.drop headerLength).length

def checks (bytes : Bytes) : List (Bool × DecodeError) :=
  let found := (bytes.drop headerLength).length
  [(headerLength ≤ bytes.length, .tooShort bytes.length),
    (bytes.take 4 = magic, .missingMagic),
    (declaredVersion bytes = formatVersion, .unsupportedVersion (declaredVersion bytes)),
    (declaredLength bytes = found, .lengthMismatch (declaredLength bytes) found)]

def flaw? (bytes : Bytes) : Option DecodeError :=
  ((checks bytes).find? fun check => !check.1).map (·.2)

def slice? (bytes : Bytes) (start stop : Nat) : Option Bytes :=
  if start ≤ stop ∧ stop ≤ bytes.length then some ((bytes.take stop).drop start) else none

/-- Decoding in which each part is cut out when it is wanted, and nothing comes of a cut that goes
beyond the end. -/
def decodeSliced (bytes : Bytes) : Option (Except DecodeError Image) :=
  if bytes.length < headerLength then some (.error (.tooShort bytes.length))
  else do
    let mark ← slice? bytes 0 4
    if mark ≠ magic then return .error .missingMagic
    let version := ofLittleEndian (← slice? bytes 4 6)
    if version ≠ formatVersion then return .error (.unsupportedVersion version)
    let declared := ofLittleEndian (← slice? bytes 6 headerLength)
    let payload ← slice? bytes headerLength bytes.length
    if payload.length ≠ declared then return .error (.lengthMismatch declared payload.length)
    return (ofPayload? payload).elim (.error .invalidPayload) .ok

variable {bytes other : Bytes} {image : Image}

theorem flaw?_eq_none : flaw? bytes = none ↔ Framed bytes := by
  simp only [flaw?, Option.map_eq_none_iff, List.find?_eq_none, checks]
  constructor
  · intro sound
    simp only [List.forall_mem_cons, Bool.not_eq_true', Bool.not_eq_false, decide_eq_true_eq] at sound
    exact ⟨sound.1, sound.2.1, sound.2.2.1, sound.2.2.2.1⟩
  · rintro ⟨long, mark, version, length⟩
    simp [long, mark, version, length]

theorem decode_eq (bytes : Bytes) : decode bytes =
    (flaw? bytes).elim ((ofPayload? (bytes.drop headerLength)).elim (.error .invalidPayload) .ok)
      .error := by
  have mark : (bytes.take headerLength).take 4 = bytes.take 4 := by
    rw [List.take_take]
    rfl
  have version : ofLittleEndian (((bytes.take headerLength).drop 4).take 2) =
      declaredVersion bytes := by
    rw [List.drop_take, List.take_take]
    rfl
  have declared : ofLittleEndian ((bytes.take headerLength).drop 6) = declaredLength bytes := by
    rw [List.drop_take]
    rfl
  simp only [decode, mark, version, declared, flaw?, checks]
  -- One split for each check, in the order in which `decode` makes them.
  by_cases long : headerLength ≤ bytes.length
  · rw [if_neg (not_lt.mpr long)]
    by_cases marked : bytes.take 4 = magic
    · rw [if_neg (not_not.mpr marked)]
      by_cases current : declaredVersion bytes = formatVersion
      · rw [if_neg (not_not.mpr current)]
        by_cases told : declaredLength bytes = (bytes.drop headerLength).length
        · rw [if_neg (not_not.mpr told.symm)]
          simp only [List.find?_cons, long, marked, current, told, decide_true, Bool.not_true,
            List.find?_nil, Option.map_none, Option.elim_none]
          cases ofPayload? (bytes.drop headerLength) <;> rfl
        · rw [if_pos (Ne.symm told)]
          simp only [List.find?_cons, long, marked, current, told, decide_true, Bool.not_true,
            decide_false, Bool.not_false, Option.map_some, Option.elim_some]
      · rw [if_pos current]
        simp [long, marked, current]
    · rw [if_pos marked]
      simp [long, marked]
  · rw [if_pos (not_le.mp long)]
    simp [long]

theorem decode_eq_ok :
    decode bytes = .ok image ↔ Framed bytes ∧ ofPayload? (bytes.drop headerLength) = some image := by
  rw [decode_eq, ← flaw?_eq_none]
  cases flaw? bytes with
  | some flaw => simp
  | none => cases ofPayload? (bytes.drop headerLength) <;> simp

theorem slice?_of_le {start stop : Nat} (ordered : start ≤ stop) (reached : stop ≤ bytes.length) :
    slice? bytes start stop = some ((bytes.drop start).take (stop - start)) := by
  rw [slice?, if_pos ⟨ordered, reached⟩, List.drop_take]

theorem decodeSliced_eq (bytes : Bytes) : decodeSliced bytes = some (decode bytes) := by
  rw [decodeSliced]
  split
  · rename_i short
    simp only [decode, if_pos short]
  · rename_i long
    have ten : headerLength = 10 := rfl
    have mark : slice? bytes 0 4 = some ((bytes.take headerLength).take 4) := by
      rw [slice?_of_le (by omega) (by omega), List.take_take]
      rfl
    have version : slice? bytes 4 6 = some (((bytes.take headerLength).drop 4).take 2) := by
      rw [slice?_of_le (by omega) (by omega), List.drop_take, List.take_take]
      rfl
    have declared : slice? bytes 6 headerLength = some ((bytes.take headerLength).drop 6) := by
      rw [slice?_of_le (by omega) (by omega), List.drop_take]
    have payload : slice? bytes headerLength bytes.length = some (bytes.drop headerLength) := by
      rw [slice?_of_le (by omega) le_rfl, ← List.length_drop, List.take_length]
    simp only [mark, version, declared, payload, Option.bind_eq_bind, Option.bind_some, pure,
      decode, if_neg long]
    split
    · rfl
    · split
      · rfl
      · split
        · rfl
        · cases ofPayload? (bytes.drop headerLength) <;> rfl

theorem take_headerLength (bytes : Bytes) : bytes.take headerLength =
    bytes.take 4 ++ (bytes.drop 4).take 2 ++ (bytes.drop 6).take 4 := by
  have six : bytes.take 4 ++ (bytes.drop 4).take 2 = bytes.take 6 := by rw [← List.take_add]
  rw [six, ← List.take_add]
  rfl

theorem Framed.take_eq (framed : Framed bytes) :
    bytes.take headerLength = header (bytes.drop headerLength).length := by
  have long : 10 ≤ bytes.length := framed.long
  have two : ((bytes.drop 4).take 2).length = 2 := by
    rw [List.length_take, List.length_drop]
    omega
  have four : ((bytes.drop 6).take 4).length = 4 := by
    rw [List.length_take, List.length_drop]
    omega
  have version : (bytes.drop 4).take 2 = littleEndian 2 formatVersion := by
    rw [← Text.littleEndian_ofLittleEndian ((bytes.drop 4).take 2), two]
    exact congrArg _ framed.version
  have length : (bytes.drop 6).take 4 = littleEndian 4 (bytes.drop headerLength).length := by
    rw [← Text.littleEndian_ofLittleEndian ((bytes.drop 6).take 4), four]
    exact congrArg _ framed.length
  rw [take_headerLength, framed.mark, version, length, header]

theorem Framed.eq_of_drop_eq (framed : Framed bytes) (framed' : Framed other)
    (same : other.drop headerLength = bytes.drop headerLength) : other = bytes := by
  rw [← List.take_append_drop headerLength other, ← List.take_append_drop headerLength bytes,
    framed.take_eq, framed'.take_eq, same]

theorem Framed.eq_of_isPrefix (framed : Framed bytes) (framed' : Framed other)
    (start : other <+: bytes) : other = bytes := by
  obtain ⟨rest, rfl⟩ := start
  have long := framed'.long
  have lengths : declaredLength (other ++ rest) = declaredLength other := by
    have front : (other ++ rest).take headerLength = other.take headerLength :=
      List.take_append_of_le_length long
    have cut (bytes : Bytes) : (bytes.drop 6).take 4 = (bytes.take headerLength).drop 6 := by
      rw [List.drop_take]
      rfl
    rw [declaredLength, declaredLength, cut, cut, front]
  have told := framed.length
  have told' := framed'.length
  rw [lengths, told', List.length_drop, List.length_drop, List.length_append] at told
  have none : rest = [] := List.eq_nil_of_length_eq_zero (by omega)
  rw [none, List.append_nil]

theorem decode_eq_error_of_ne (decoded : decode bytes = .ok image)
    (alone : Framed bytes → Framed other → other = bytes) (changed : other ≠ bytes) :
    ∃ cause, decode other = .error cause := by
  cases outcome : decode other with
  | error cause => exact ⟨cause, rfl⟩
  | ok image' =>
      exact absurd (alone (decode_eq_ok.mp decoded).1 (decode_eq_ok.mp outcome).1) changed

/-- The header is checked in order and within the bytes. Bytes that are decoded begin with a header
that tells how much follows; cut off, continued or with another header they are refused. -/
theorem decode_only_whole (bytes : Bytes) :
    decodeSliced bytes = some (decode bytes) ∧
    decode bytes =
      (flaw? bytes).elim ((ofPayload? (bytes.drop headerLength)).elim (.error .invalidPayload) .ok)
        .error ∧
    ∀ image, decode bytes = .ok image →
      Framed bytes ∧
      (∀ other, other <+: bytes → other ≠ bytes → ∃ cause, decode other = .error cause) ∧
      (∀ other, bytes <+: other → other ≠ bytes → ∃ cause, decode other = .error cause) ∧
      ∀ other, other.drop headerLength = bytes.drop headerLength → other ≠ bytes →
        ∃ cause, decode other = .error cause := by
  refine ⟨decodeSliced_eq bytes, decode_eq bytes, fun image decoded => ⟨(decode_eq_ok.mp decoded).1,
    fun other start => ?_, fun other start => ?_, fun other same => ?_⟩⟩
  · exact decode_eq_error_of_ne decoded fun framed framed' => framed.eq_of_isPrefix framed' start
  · exact decode_eq_error_of_ne decoded fun framed framed' =>
      (framed'.eq_of_isPrefix framed start).symm
  · exact decode_eq_error_of_ne decoded fun framed framed' => framed.eq_of_drop_eq framed' same

/-! The bytes of an image without their last byte, with one more, and with another version. -/

namespace Torn

def model : Image :=
  ⟨"App", none, [⟨"Expressive", none⟩],
    [⟨"Model", none, .object, [⟨"level", "Score?", []⟩], [], []⟩]⟩

theorem decodes_whole : decode model.encode = .ok model ∧
    (∃ cause, decode model.encode.dropLast = .error cause) ∧
    (∃ cause, decode (model.encode ++ [0xC0]) = .error cause) ∧
    ∃ cause, decode (model.encode.set 4 2) = .error cause := by
  have decoded : decode model.encode = .ok model := by decide +kernel
  obtain ⟨-, shorter, longer, altered⟩ := (decode_only_whole model.encode).2.2 model decoded
  exact ⟨decoded, shorter _ (List.dropLast_prefix _) (by decide +kernel),
    longer _ (List.prefix_append _ _) (by simp), altered _ rfl (by decide +kernel)⟩

end Torn

end RuleLint.Image
