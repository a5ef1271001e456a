import Mathlib.Data.List.Forall2
import Mathlib.Data.Option.Basic
import RuleLint.Image.Codec
import RuleLint.Proofs.MessagePack.Reading

/-!
# Images read back

Whatever an image holds, its bytes are read as the same image, as long as the length of the payload
fits into the four bytes of the header (`decode_encode`). A record is read back field by field
(`exists_record`), and a field that was left out is read as its default.
-/

namespace RuleLint.Image

open MessagePack (Value Reads readValue writeText writeArray writeMap)
open Text (Bytes encodeUtf8 littleEndian ofLittleEndian)

variable {depth : Nat}

/-! ## Slots -/

def slotEntry (name : String) (v : Option Value) : Option (Value × Value) :=
  v.map fun v => (.text (encodeUtf8 name), v)

theorem fieldPosition?_text {before : List String} {name : String} (fresh : name ∉ before)
    (after : List String) : fieldPosition? (before ++ name :: after) (.text (encodeUtf8 name)) =
      some (some before.length) := by
  have other : ∀ n ∈ before, decide (encodeUtf8 n = encodeUtf8 name) = false := by
    intro n among
    apply decide_eq_false
    intro same
    exact fresh (Text.encodeUtf8_injective same ▸ among)
  have here : before.findIdx? (encodeUtf8 · = encodeUtf8 name) = none :=
    List.findIdx?_eq_none_iff.mpr other
  simp [fieldPosition?, Value.bytes?, List.findIdx?_append, here, List.findIdx?_cons]

theorem fillSlots_rows (before rows : List (String × Option Value))
    (distinct : ((before ++ rows).map (·.1)).Nodup) :
    fillSlots (fieldPosition? ((before ++ rows).map (·.1)))
        (rows.filterMap fun row => slotEntry row.1 row.2)
        (before.map (·.2) ++ rows.map fun _ => none) =
      some ((before ++ rows).map (·.2)) := by
  induction rows generalizing before with
  | nil => simp [fillSlots]
  | cons row rows ih =>
      obtain ⟨name, given⟩ := row
      have later := ih (before ++ [(name, given)]) (by simpa using distinct)
      cases given with
      | none => simpa [slotEntry] using later
      | some v =>
          have fresh : name ∉ before.map (·.1) := by
            rw [List.map_append, List.map_cons] at distinct
            exact fun among => (List.nodup_append.mp distinct).2.2 name among name (by simp) rfl
          have position := fieldPosition?_text fresh (rows.map (·.1))
          simp only [slotEntry, Option.map_some, List.filterMap_cons, List.map_append, List.map_cons,
            fillSlots] at later ⊢
          rw [position]
          simpa [slotEntry] using later

theorem fields_record (rows : List (String × Option Value)) (distinct : (rows.map (·.1)).Nodup) :
    packed.fields (rows.map (·.1)) (.map (rows.filterMap fun row => slotEntry row.1 row.2)) =
      some (rows.map (·.2)) := by
  have filled := fillSlots_rows [] rows distinct
  simpa [packed, packedFields?, Function.comp_def] using filled

theorem reads_rows {rows : List (String × Option Bytes)} {values : List (Option Value)}
    (each : List.Forall₂ (fun row v => Option.Rel (Reads (readValue depth)) row.2 v) rows values) :
    ∃ given : List (String × Option Value), given.map (·.1) = rows.map (·.1) ∧
      given.map (·.2) = values ∧
      List.Forall₂ (fun e f => e.1 = f.1 ∧ Reads (readValue depth) e.2 f.2)
        (rows.filterMap fun row => row.2.map fun bytes => (row.1, bytes))
        (given.filterMap fun row => row.2.map fun v => (row.1, v)) := by
  induction each with
  | nil => exact ⟨[], rfl, rfl, .nil⟩
  | @cons row v rows values here others ih =>
      obtain ⟨given, names, slots, read⟩ := ih
      refine ⟨(row.1, v) :: given, by simp [names], by simp [slots], ?_⟩
      obtain ⟨name, bytes⟩ := row
      cases here with
      | none => exact read
      | some reads => exact .cons ⟨rfl, reads⟩ read

theorem exists_record (names : List String) (distinct : names.Nodup)
    (rows : List (String × Option Bytes)) (named : rows.map (·.1) = names)
    {values : List (Option Value)}
    (each : List.Forall₂ (fun row v => Option.Rel (Reads (readValue depth)) row.2 v) rows values) :
    ∃ v, Reads (readValue (depth + 1))
        (writeMap (rows.filterMap fun row => row.2.map fun bytes => (row.1, bytes))) v ∧
      packed.fields names v = some values := by
  obtain ⟨given, same, rfl, read⟩ := reads_rows each
  refine ⟨_, Reads.map read, ?_⟩
  have fields := fields_record given (by rwa [same, named])
  rw [same, named] at fields
  simpa [List.map_filterMap, slotEntry, Function.comp_def] using fields

/-! ## What bytes stand for -/

def Carries {α : Type} (read : Value → Option α) (depth : Nat) (bytes : Bytes) (x : α) : Prop :=
  ∃ v, Reads (readValue depth) bytes v ∧ read v = some x

/-- The bytes of a field, if it is given, are read as a value that the description takes for `x`,
or else `x` is what the description takes for a field that is not given. -/
def Fills {α : Type} (read : Option Value → Option α) (depth : Nat) (bytes : Option Bytes) (x : α) :
    Prop :=
  ∃ v, Option.Rel (Reads (readValue depth)) bytes v ∧ read v = some x

section

variable {α : Type} {read : Value → Option α} {bytes : Bytes} {x : α}

theorem Carries.required (carries : Carries read depth bytes x) :
    Fills (required read) depth (some bytes) x := by
  obtain ⟨v, reads, same⟩ := carries
  exact ⟨some v, .some reads, same⟩

theorem Carries.withDefault (carries : Carries read depth bytes x) (default : α) :
    Fills (withDefault default read) depth (some bytes) x := by
  obtain ⟨v, reads, same⟩ := carries
  exact ⟨some v, .some reads, same⟩

theorem carries_text (depth : Nat) (s : String) : Carries packed.text depth (writeText s) s :=
  ⟨_, .text depth s, by simp [packed, Value.string?, Value.bytes?]⟩

theorem fills_optionalText (depth : Nat) (s : Option String) :
    Fills (withDefault none packed.optionalText) depth (s.map writeText) s := by
  cases s with
  | none => exact ⟨none, .none, rfl⟩
  | some s =>
      refine ⟨_, .some (.text depth s), ?_⟩
      simp [Image.withDefault, packed, Value.string?, Value.bytes?]

theorem carries_kind (depth : Nat) (k : TypeKind) :
    Carries packed.kind depth (writeText k.text) k := by
  refine ⟨_, .text depth k.text, ?_⟩
  cases k <;> rfl

theorem carries_listOf {write : α → Bytes} (each : ∀ x, Carries read depth (write x) x)
    (xs : List α) : Carries (packed.listOf read) (depth + 1) (writeArray (xs.map write)) xs := by
  choose value reads same using each
  refine ⟨.array (xs.map value), .array ?_, ?_⟩
  · rw [List.forall₂_map_left_iff, List.forall₂_map_right_iff]
    exact List.forall₂_same.mpr fun x _ => reads x
  · have taken : (xs.map value).mapM read = some xs := by
      induction xs with
      | nil => rfl
      | cons x xs ih => simp [same, ih]
    simpa [Format.listOf, packed] using taken

end

/-! ## Records -/

theorem Annotation.carries (depth : Nat) (a : Annotation) :
    Carries packed.annotation (depth + 2) a.payload a := by
  obtain ⟨name, nameReads, nameIs⟩ := (carries_text (depth + 1) a.name).required
  obtain ⟨base, baseReads, baseIs⟩ := fills_optionalText (depth + 1) a.base
  obtain ⟨args, argsReads, argsIs⟩ := (carries_listOf (carries_text depth) a.args).withDefault []
  obtain ⟨v, reads, fields⟩ := exists_record ["name", "base", "args"] (by decide)
    [("name", some (writeText a.name)), ("base", a.base.map writeText),
      ("args", some (writeArray (a.args.map writeText)))]
    rfl (.cons nameReads (.cons baseReads (.cons argsReads .nil)))
  refine ⟨v, ?_, ?_⟩
  · cases written : a.base <;> simpa [optionalEntry, written, Annotation.payload] using reads
  · simp [Format.annotation, fields, nameIs, baseIs, argsIs]

theorem Field.carries (depth : Nat) (f : Field) :
    Carries packed.field (depth + 4) f.payload f := by
  obtain ⟨name, nameReads, nameIs⟩ := (carries_text (depth + 3) f.name).required
  obtain ⟨ty, tyReads, tyIs⟩ := (carries_text (depth + 3) f.ty).required
  have each := Annotation.carries depth
  obtain ⟨annotations, annotationsReads, annotationsIs⟩ :=
    (carries_listOf each f.annotations).withDefault []
  obtain ⟨v, reads, fields⟩ := exists_record ["name", "ty", "annotations"] (by decide)
    [("name", some (writeText f.name)), ("ty", some (writeText f.ty)),
      ("annotations", some (writeArray (f.annotations.map Annotation.payload)))]
    rfl (.cons nameReads (.cons tyReads (.cons annotationsReads .nil)))
  exact ⟨v, reads, by simp [Format.field, fields, nameIs, tyIs, annotationsIs]⟩

theorem Param.carries (depth : Nat) (p : Param) :
    Carries packed.param (depth + 1) p.payload p := by
  obtain ⟨name, nameReads, nameIs⟩ := (carries_text depth p.name).required
  obtain ⟨ty, tyReads, tyIs⟩ := (carries_text depth p.ty).required
  obtain ⟨v, reads, fields⟩ := exists_record ["name", "ty"] (by decide)
    [("name", some (writeText p.name)), ("ty", some (writeText p.ty))]
    rfl (.cons nameReads (.cons tyReads .nil))
  exact ⟨v, reads, by simp [Format.param, fields, nameIs, tyIs]⟩

theorem Method.carries (depth : Nat) (m : Method) :
    Carries packed.method (depth + 3) m.payload m := by
  obtain ⟨name, nameReads, nameIs⟩ := (carries_text (depth + 2) m.name).required
  obtain ⟨params, paramsReads, paramsIs⟩ :=
    (carries_listOf (Param.carries depth) m.params).withDefault []
  obtain ⟨returns, returnsReads, returnsIs⟩ :=
    (carries_text (depth + 2) m.returns).withDefault "void"
  obtain ⟨v, reads, fields⟩ := exists_record ["name", "params", "returns"] (by decide)
    [("name", some (writeText m.name)), ("params", some (writeArray (m.params.map Param.payload))),
      ("returns", some (writeText m.returns))]
    rfl (.cons nameReads (.cons paramsReads (.cons returnsReads .nil)))
  exact ⟨v, reads, by simp [Format.method, fields, nameIs, paramsIs, returnsIs]⟩

theorem TypeDef.carries (depth : Nat) (t : TypeDef) :
    Carries packed.typeDef (depth + 6) t.payload t := by
  obtain ⟨name, nameReads, nameIs⟩ := (carries_text (depth + 5) t.name).required
  obtain ⟨qualifier, qualifierReads, qualifierIs⟩ := fills_optionalText (depth + 5) t.qualifier
  obtain ⟨kind, kindReads, kindIs⟩ := (carries_kind (depth + 5) t.kind).withDefault .object
  obtain ⟨fields, fieldsReads, fieldsIs⟩ :=
    (carries_listOf (Field.carries depth) t.fields).withDefault []
  obtain ⟨methods, methodsReads, methodsIs⟩ :=
    (carries_listOf (Method.carries (depth + 1)) t.methods).withDefault []
  obtain ⟨variants, variantsReads, variantsIs⟩ :=
    (carries_listOf (carries_text (depth + 4)) t.variants).withDefault []
  obtain ⟨v, reads, slots⟩ := exists_record
    ["name", "namespace", "kind", "fields", "methods", "variants"] (by decide)
    [("name", some (writeText t.name)), ("namespace", t.qualifier.map writeText),
      ("kind", some (writeText t.kind.text)),
      ("fields", some (writeArray (t.fields.map Field.payload))),
      ("methods", some (writeArray (t.methods.map Method.payload))),
      ("variants", some (writeArray (t.variants.map writeText)))]
    rfl (.cons nameReads (.cons qualifierReads (.cons kindReads (.cons fieldsReads
      (.cons methodsReads (.cons variantsReads .nil))))))
  refine ⟨v, ?_, ?_⟩
  · cases written : t.qualifier <;> simpa [TypeDef.payload, optionalEntry, written] using reads
  · simp [Format.typeDef, slots, nameIs, qualifierIs, kindIs, fieldsIs, methodsIs, variantsIs]

theorem Reference.carries (depth : Nat) (r : Reference) :
    Carries packed.reference (depth + 1) r.payload r := by
  obtain ⟨name, nameReads, nameIs⟩ := (carries_text depth r.name).required
  obtain ⟨version, versionReads, versionIs⟩ := fills_optionalText depth r.version
  obtain ⟨v, reads, fields⟩ := exists_record ["name", "version"] (by decide)
    [("name", some (writeText r.name)), ("version", r.version.map writeText)]
    rfl (.cons nameReads (.cons versionReads .nil))
  refine ⟨v, ?_, ?_⟩
  · cases written : r.version <;> simpa [Reference.payload, optionalEntry, written] using reads
  · simp [Format.reference, fields, nameIs, versionIs]

theorem carries_payload (depth : Nat) (image : Image) :
    Carries packed.image (depth + 8) image.payload image := by
  obtain ⟨name, nameReads, nameIs⟩ := (carries_text (depth + 7) image.name).required
  obtain ⟨version, versionReads, versionIs⟩ := fills_optionalText (depth + 7) image.version
  obtain ⟨references, referencesReads, referencesIs⟩ :=
    (carries_listOf (Reference.carries (depth + 5)) image.references).withDefault []
  obtain ⟨types, typesReads, typesIs⟩ :=
    (carries_listOf (TypeDef.carries depth) image.types).withDefault []
  obtain ⟨v, reads, fields⟩ := exists_record ["name", "version", "references", "types"] (by decide)
    [("name", some (writeText image.name)), ("version", image.version.map writeText),
      ("references", some (writeArray (image.references.map Reference.payload))),
      ("types", some (writeArray (image.types.map TypeDef.payload)))]
    rfl (.cons nameReads (.cons versionReads (.cons referencesReads (.cons typesReads .nil))))
  refine ⟨v, ?_, ?_⟩
  · cases written : image.version <;> simpa [payload, optionalEntry, written] using reads
  · simp [Format.image, fields, nameIs, versionIs, referencesIs, typesIs]

/-! ## Headers -/

theorem ofPayload?_payload {image : Image} (short : image.payload.length < 2 ^ 32) :
    ofPayload? image.payload = some image := by
  obtain ⟨v, reads, same⟩ := carries_payload 1015 image
  have whole := reads short []
  rw [List.append_nil] at whole
  simp [ofPayload?, maxNesting, whole, same]

theorem decode_of_header {declared : Nat} (fits : declared < 2 ^ 32) (content : Bytes) :
    decode (magic ++ littleEndian 2 formatVersion ++ littleEndian 4 declared ++ content) =
      if content.length = declared then (ofPayload? content).elim (.error .invalidPayload) .ok
      else .error (.lengthMismatch declared content.length) := by
  let header : Bytes := magic ++ littleEndian 2 formatVersion ++ littleEndian 4 declared
  have ten : header.length = headerLength := by simp [header, magic, headerLength]
  have front : (header ++ content).take headerLength = header := by rw [← ten, List.take_left]
  have back : (header ++ content).drop headerLength = content := by rw [← ten, List.drop_left]
  have long : ¬ (header ++ content).length < headerLength := by
    rw [List.length_append, ten]
    omega
  have mark : header.take 4 = magic := rfl
  have version : ofLittleEndian ((header.drop 4).take 2) = formatVersion := rfl
  have told : ofLittleEndian (header.drop 6) = declared := by
    have bound : declared < 256 ^ 4 := by omega
    change ofLittleEndian (littleEndian 4 declared) = declared
    rw [Text.ofLittleEndian_littleEndian, Nat.mod_eq_of_lt bound]
  change decode (header ++ content) = _
  simp only [decode, front, back, long, mark, version, told, ne_eq, not_true_eq_false, if_false,
    ite_not]
  cases ofPayload? content <;> rfl

theorem decode_encode_eq (image : Image) : decode (encode image) =
    if image.payload.length < 2 ^ 32 then .ok image
    else .error (.lengthMismatch (image.payload.length % 2 ^ 32) image.payload.length) := by
  have bound : image.payload.length % 2 ^ 32 < 2 ^ 32 := Nat.mod_lt _ (by decide)
  have told : littleEndian 4 image.payload.length = littleEndian 4 (image.payload.length % 2 ^ 32) :=
    (Text.littleEndian_mod 4 image.payload.length).symm
  rw [encode, told, decode_of_header bound]
  by_cases short : image.payload.length < 2 ^ 32
  · rw [if_pos (Nat.mod_eq_of_lt short).symm, if_pos short, ofPayload?_payload short]
    rfl
  · rw [if_neg, if_neg short]
    omega

theorem decode_encode (image : Image) (short : image.payload.length < 2 ^ 32) :
    decode (encode image) = .ok image := by
  rw [decode_encode_eq, if_pos short]

/-! An image with versions and a base that are empty but there, and with more references than the
first byte of an array can count. -/

namespace Crowded

def image : Image where
  name := "Ünïversity of the far away northern mountains"
  version := some ""
  references := (List.replicate 17 ⟨"Expressive", none⟩) ++ [⟨"core", some "1.2"⟩]
  types :=
    [⟨"Größe", some "", .enumeration, [], [], ["S", "M", "L"]⟩,
      ⟨"Model", some "Far.Away", .object,
        [⟨"Level", "Größe?", [⟨"AssertThat", some "ExpressiveAttribute", ["Level == Größe.M"]⟩,
          ⟨"Display", some "", []⟩, ⟨"Hidden", none, [""]⟩]⟩],
        [⟨"Rank", [⟨"of", "Größe"⟩], "int"⟩], []⟩]

theorem decode_bytes : image.payload.length < 2 ^ 32 ∧ decode (encode image) = .ok image := by
  have short : image.payload.length < 2 ^ 32 := by decide +kernel
  exact ⟨short, decode_encode image short⟩

end Crowded

end RuleLint.Image
