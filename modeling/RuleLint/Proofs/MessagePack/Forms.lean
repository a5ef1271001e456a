import Mathlib.Algebra.Ring.Int.Defs
import RuleLint.Proofs.MessagePack.Reading

namespace RuleLint.MessagePack

open Text (Bytes bigEndian takeBytes? takeBytes?_append)

/-! ## Forms -/

/-- The front of a value that has a number in it: one byte, counted from `base`, for a number below
`small`, or a lead and behind it the number in the width that belongs to the lead. -/
inductive Head (small base : Nat) (leads : List (UInt8 × Nat)) : Nat → Bytes → Prop
  | short {n : Nat} (fits : n < small) : Head small base leads n [UInt8.ofNat (base + n)]
  | wide {n width : Nat} {lead : UInt8} (form : (lead, width) ∈ leads) (fits : n < 256 ^ width) :
      Head small base leads n (lead :: bigEndian width n)

def unsignedLeads : List (UInt8 × Nat) := [(0xCC, 1), (0xCD, 2), (0xCE, 4), (0xCF, 8)]

def signedLeads : List (UInt8 × Nat) := [(0xD0, 1), (0xD1, 2), (0xD2, 4), (0xD3, 8)]

def floatLeads : List (UInt8 × Nat) := [(0xCA, 4), (0xCB, 8)]

def textLeads : List (UInt8 × Nat) := [(0xD9, 1), (0xDA, 2), (0xDB, 4)]

def binaryLeads : List (UInt8 × Nat) := [(0xC4, 1), (0xC5, 2), (0xC6, 4)]

def extensionLeads : List (UInt8 × Nat) := [(0xC7, 1), (0xC8, 2), (0xC9, 4)]

def fixedExtensionLeads : List (UInt8 × Nat) :=
  [(0xD4, 1), (0xD5, 2), (0xD6, 4), (0xD7, 8), (0xD8, 16)]

def arrayLeads : List (UInt8 × Nat) := [(0xDC, 2), (0xDD, 4)]

def mapLeads : List (UInt8 × Nat) := [(0xDE, 2), (0xDF, 4)]

/-- The bytes are a form of the value, in which at most `depth` arrays, maps and extensions stand
within one another. An extension is its type and its content, and only the latter is measured. -/
inductive Written : (depth : Nat) → Value → Bytes → Prop
  | nil (depth : Nat) : Written depth .nil [0xC0]
  | no (depth : Nat) : Written depth (.bool false) [0xC2]
  | yes (depth : Nat) : Written depth (.bool true) [0xC3]
  | unsigned (depth : Nat) {n : Nat} {front : Bytes} (head : Head 128 0 unsignedLeads n front) :
      Written depth (.unsigned n) front
  | negative (depth : Nat) {n : Nat} (fits : n < 32) :
      Written depth (.signed (n - 32)) [UInt8.ofNat (0xE0 + n)]
  | signed (depth : Nat) {i : Int} {lead : UInt8} {width : Nat} (form : (lead, width) ∈ signedLeads)
      (low : -(256 ^ width / 2) ≤ i) (high : i < 256 ^ width / 2) :
      Written depth (.signed i) (lead :: bigEndian width (i % 256 ^ width).toNat)
  | float (depth : Nat) {lead : UInt8} {bytes : Bytes} (form : (lead, bytes.length) ∈ floatLeads) :
      Written depth (.float bytes) (lead :: bytes)
  | text (depth : Nat) {bytes front : Bytes} (head : Head 32 0xA0 textLeads bytes.length front) :
      Written depth (.text bytes) (front ++ bytes)
  | binary (depth : Nat) {bytes front : Bytes} (head : Head 0 0 binaryLeads bytes.length front) :
      Written depth (.binary bytes) (front ++ bytes)
  | fixedExtension (depth : Nat) {lead type : UInt8} {content : Bytes}
      (form : (lead, content.length) ∈ fixedExtensionLeads) :
      Written (depth + 1) (.extension (type :: content)) (lead :: type :: content)
  | extension (depth : Nat) {type : UInt8} {content front : Bytes}
      (head : Head 0 0 extensionLeads content.length front) :
      Written (depth + 1) (.extension (type :: content)) (front ++ type :: content)
  | array {depth : Nat} {items : List (Value × Bytes)} {front : Bytes}
      (head : Head 16 0x90 arrayLeads items.length front)
      (each : ∀ item ∈ items, Written depth item.1 item.2) :
      Written (depth + 1) (.array (items.map (·.1))) (front ++ items.flatMap (·.2))
  | map {depth : Nat} {entries : List ((Value × Bytes) × (Value × Bytes))} {front : Bytes}
      (head : Head 16 0x80 mapLeads entries.length front)
      (keys : ∀ entry ∈ entries, Written depth entry.1.1 entry.1.2)
      (values : ∀ entry ∈ entries, Written depth entry.2.1 entry.2.2) :
      Written (depth + 1) (.map (entries.map fun entry => (entry.1.1, entry.2.1)))
        (front ++ entries.flatMap fun entry => entry.1.2 ++ entry.2.2)

/-! ## Reading forms -/

variable {depth n small base : Nat} {leads : List (UInt8 × Nat)} {front bytes rest : Bytes} {v : Value}

theorem Head.read (head : Head small base leads n front) (goOn : Nat → Reader Value)
    (short : ∀ n < small, ∀ bytes, readValue depth (UInt8.ofNat (base + n) :: bytes) = goOn n bytes)
    (wide : ∀ form ∈ leads, ∀ bytes, readValue depth (form.1 :: bytes) =
      (readNat form.2 bytes).bind fun (n, rest) => goOn n rest) (rest : Bytes) :
    readValue depth (front ++ rest) = goOn n rest := by
  cases head with
  | short fits => exact short n fits rest
  | wide form fits =>
      rw [List.cons_append, wide _ form, readNat_bigEndian fits]
      rfl

theorem Lead.ofByte_unsigned (fits : n < 128) :
    Lead.ofByte (UInt8.ofNat (0 + n)) = .value (.unsigned n) := by
  simp only [ofByte, toNat_lead (show 0 + n < 256 by omega)]
  rw [if_pos (by omega), Nat.zero_add]

theorem Lead.ofByte_negative (fits : n < 32) :
    Lead.ofByte (UInt8.ofNat (0xE0 + n)) = .value (.signed (n - 32)) := by
  simp only [ofByte, toNat_lead (show 0xE0 + n < 256 by omega)]
  rw [if_neg (by omega), if_neg (by omega), if_neg (by omega), if_neg (by omega),
    if_pos (by omega)]
  congr 2
  omega

theorem readInt_bigEndian {i : Int} {lead : UInt8} {width : Nat} (form : (lead, width) ∈ signedLeads)
    (low : -(256 ^ width / 2) ≤ i) (high : i < 256 ^ width / 2) (rest : Bytes) :
    readInt width (bigEndian width (i % 256 ^ width).toNat ++ rest) = some (i, rest) := by
  have widths : width = 1 ∨ width = 2 ∨ width = 4 ∨ width = 8 := by
    simp only [signedLeads, List.mem_cons, Prod.mk.injEq, List.not_mem_nil, or_false] at form
    tauto
  have fits : (i % 256 ^ width).toNat < 256 ^ width := by
    rcases widths with rfl | rfl | rfl | rfl <;> omega
  rw [readInt, readNat_bigEndian fits]
  simp only [bind, Option.bind, pure, Option.some.injEq, Prod.mk.injEq, and_true]
  rcases widths with rfl | rfl | rfl | rfl <;> split <;> simp at * <;> omega

theorem readMany_flatMap {α β : Type} {item : Reader α} {piece : β → Bytes} {value : β → α}
    {parts : List β} (each : ∀ part ∈ parts, ∀ rest, item (piece part ++ rest) = some (value part, rest))
    (rest : Bytes) : readMany item parts.length (parts.flatMap piece ++ rest) =
      some (parts.map value, rest) := by
  induction parts with
  | nil => rfl
  | cons part parts ih =>
      rw [List.forall_mem_cons] at each
      simp [readMany, each.1, ih each.2]

theorem readValue_of_value {byte : UInt8} (lead : Lead.ofByte byte = .value v) (bytes : Bytes) :
    readValue depth (byte :: bytes) = some (v, bytes) := by
  rw [readValue, lead]

section

variable {byte : UInt8} {width : Nat}

theorem readValue_of_sizedBinary (lead : Lead.ofByte byte = .sizedBinary width) (bytes : Bytes) :
    readValue depth (byte :: bytes) =
      (readSized width 0 bytes).map fun (front, rest) => (.binary front, rest) := by
  rw [readValue, lead, Option.map_eq_bind]
  rfl

theorem readValue_of_extension (lead : Lead.ofByte byte = .extension n) (bytes : Bytes) :
    readValue (depth + 1) (byte :: bytes) =
      (takeBytes? (n + 1) bytes).map fun (front, rest) => (.extension front, rest) := by
  rw [readValue, lead, Option.map_eq_bind]
  rfl

theorem readValue_of_sizedExtension (lead : Lead.ofByte byte = .sizedExtension width)
    (bytes : Bytes) : readValue (depth + 1) (byte :: bytes) =
      (readSized width 1 bytes).map fun (front, rest) => (.extension front, rest) := by
  rw [readValue, lead, Option.map_eq_bind]
  rfl

end

theorem Lead.ofByte_of_mem : (∀ form ∈ unsignedLeads, ofByte form.1 = .unsigned form.2) ∧
    (∀ form ∈ signedLeads, ofByte form.1 = .signed form.2) ∧
    (∀ form ∈ floatLeads, ofByte form.1 = .float form.2) ∧
    (∀ form ∈ textLeads, ofByte form.1 = .sizedText form.2) ∧
    (∀ form ∈ binaryLeads, ofByte form.1 = .sizedBinary form.2) ∧
    (∀ form ∈ extensionLeads, ofByte form.1 = .sizedExtension form.2) ∧
    (∀ form ∈ fixedExtensionLeads, ofByte form.1 = .extension form.2) ∧
    (∀ form ∈ arrayLeads, ofByte form.1 = .sizedArray form.2) ∧
    ∀ form ∈ mapLeads, ofByte form.1 = .sizedMap form.2 := by
  simp only [unsignedLeads, signedLeads, floatLeads, textLeads, binaryLeads, extensionLeads,
    fixedExtensionLeads, arrayLeads, mapLeads, List.forall_mem_cons, List.not_mem_nil, false_implies,
    implies_true, and_true]
  and_intros
  all_goals rfl

theorem Written.read (written : Written depth v bytes) (rest : Bytes) :
    readValue depth (bytes ++ rest) = some (v, rest) := by
  obtain ⟨unsignedLead, signedLead, floatLead, textLead, binaryLead, extensionLead, fixedLead,
    arrayLead, mapLead⟩ := Lead.ofByte_of_mem
  induction written generalizing rest with
  | nil depth => exact readValue_of_value rfl rest
  | no depth => exact readValue_of_value rfl rest
  | yes depth => exact readValue_of_value rfl rest
  | unsigned depth head =>
      apply head.read fun n rest => some (.unsigned n, rest)
      · exact fun n fits bytes => readValue_of_value (Lead.ofByte_unsigned fits) bytes
      · intro form member bytes
        rw [readValue, unsignedLead form member]
        rfl
  | negative depth fits => exact readValue_of_value (Lead.ofByte_negative fits) rest
  | signed depth form low high =>
      rw [List.cons_append, readValue, signedLead _ form]
      simp [readInt_bigEndian form low high]
  | float depth form =>
      rw [List.cons_append, readValue, floatLead _ form]
      simp
  | @text depth bytes front head =>
      rw [List.append_assoc, head.read fun n rest =>
        (takeBytes? n rest).map (Prod.map .text id)]
      · rw [takeBytes?_append]
        rfl
      · exact fun n fits bytes => readValue_of_text (Lead.ofByte_text fits) bytes
      · intro form member bytes
        rw [readValue_of_sizedText (textLead form member), readSized]
        cases readNat form.2 bytes <;> rfl
  | @binary depth bytes front head =>
      rw [List.append_assoc, head.read fun n rest =>
        (takeBytes? n rest).map (Prod.map .binary id)]
      · rw [takeBytes?_append]
        rfl
      · exact fun n fits => absurd fits (Nat.not_lt_zero n)
      · intro form member bytes
        rw [readValue_of_sizedBinary (binaryLead form member), readSized]
        cases readNat form.2 bytes <;> rfl
  | @fixedExtension depth lead type content form =>
      rw [List.cons_append, readValue_of_extension (fixedLead _ form)]
      rw [← List.length_cons, takeBytes?_append]
      rfl
  | @extension depth type content front head =>
      rw [List.append_assoc, head.read fun n rest =>
        (takeBytes? (n + 1) rest).map (Prod.map .extension id)]
      · rw [← List.length_cons, takeBytes?_append]
        rfl
      · exact fun n fits => absurd fits (Nat.not_lt_zero n)
      · intro form member bytes
        rw [readValue_of_sizedExtension (extensionLead form member), readSized]
        cases readNat form.2 bytes <;> rfl
  | @array depth items front head each ih =>
      rw [List.append_assoc, head.read fun n rest =>
        (readMany (readValue depth) n rest).map (Prod.map .array id)]
      · rw [readMany_flatMap ih]
        rfl
      · exact fun n fits bytes => readValue_of_array (Lead.ofByte_array fits) bytes
      · intro form member bytes
        cases counted : readNat form.2 bytes with
        | none => simp [readValue, arrayLead form member, counted]
        | some read => exact readValue_of_sizedArray (arrayLead form member) counted
  | @map depth entries front head keys values ihKeys ihValues =>
      have each : ∀ entry ∈ entries, ∀ rest, readPair (readValue depth)
          (entry.1.2 ++ entry.2.2 ++ rest) = some ((entry.1.1, entry.2.1), rest) := by
        intro entry member rest
        simp [readPair, ihKeys entry member, ihValues entry member]
      rw [List.append_assoc, head.read fun n rest =>
        (readMany (readPair (readValue depth)) n rest).map (Prod.map .map id)]
      · rw [readMany_flatMap each]
        rfl
      · exact fun n fits bytes => readValue_of_map (Lead.ofByte_map fits) bytes
      · intro form member bytes
        cases counted : readNat form.2 bytes with
        | none => simp [readValue, mapLead form member, counted]
        | some read => exact readValue_of_sizedMap (mapLead form member) counted

/-! ## Levels -/

theorem readPair_mono {α : Type} {item item' : Reader α}
    (each : ∀ {bytes read}, item bytes = some read → item' bytes = some read) {read : (α × α) × Bytes}
    (first : readPair item bytes = some read) : readPair item' bytes = some read := by
  simp only [readPair, Option.bind_eq_bind, Option.bind_eq_some_iff] at first ⊢
  obtain ⟨key, keyRead, value, valueRead, same⟩ := first
  exact ⟨key, each keyRead, value, each valueRead, same⟩

theorem readMany_mono {α : Type} {item item' : Reader α}
    (each : ∀ {bytes read}, item bytes = some read → item' bytes = some read) {count : Nat}
    {read : List α × Bytes} (first : readMany item count bytes = some read) :
    readMany item' count bytes = some read := by
  induction count generalizing bytes read with
  | zero => exact first
  | succ count ih =>
      simp only [readMany, Option.bind_eq_bind, Option.bind_eq_some_iff] at first ⊢
      obtain ⟨head, headRead, others, othersRead, same⟩ := first
      exact ⟨head, each headRead, others, ih othersRead, same⟩

theorem readValue_mono {depth' : Nat} (le : depth ≤ depth') {read : Value × Bytes}
    (first : readValue depth bytes = some read) : readValue depth' bytes = some read := by
  induction depth generalizing depth' bytes read with
  | zero =>
      cases bytes with
      | nil => simp [readValue] at first
      | cons lead bytes =>
          rw [readValue] at first ⊢
          cases kind : Lead.ofByte lead <;> simp_all
  | succ depth ih =>
      obtain ⟨depth', rfl⟩ : ∃ d, depth' = d + 1 := ⟨depth' - 1, by omega⟩
      have inner {bytes : Bytes} {read : Value × Bytes} (first : readValue depth bytes = some read) :
          readValue depth' bytes = some read := ih (by omega) first
      cases bytes with
      | nil => simp [readValue] at first
      | cons lead bytes =>
          cases kind : Lead.ofByte lead with
          | array count =>
              rw [readValue_of_array kind, Option.map_eq_some_iff] at first ⊢
              obtain ⟨items, itemsRead, same⟩ := first
              exact ⟨items, readMany_mono inner itemsRead, same⟩
          | map count =>
              rw [readValue_of_map kind, Option.map_eq_some_iff] at first ⊢
              obtain ⟨entries, entriesRead, same⟩ := first
              exact ⟨entries, readMany_mono (readPair_mono inner) entriesRead, same⟩
          | sizedArray width =>
              cases counted : readNat width bytes with
              | none => simp [readValue, kind, counted] at first
              | some number =>
                  rw [readValue_of_sizedArray kind counted, Option.map_eq_some_iff] at first ⊢
                  obtain ⟨items, itemsRead, same⟩ := first
                  exact ⟨items, readMany_mono inner itemsRead, same⟩
          | sizedMap width =>
              cases counted : readNat width bytes with
              | none => simp [readValue, kind, counted] at first
              | some number =>
                  rw [readValue_of_sizedMap kind counted, Option.map_eq_some_iff] at first ⊢
                  obtain ⟨entries, entriesRead, same⟩ := first
                  exact ⟨entries, readMany_mono (readPair_mono inner) entriesRead, same⟩
          | _ => simp_all [readValue]

end RuleLint.MessagePack
