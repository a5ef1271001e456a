import RuleLint.Proofs.Image.Fields
import RuleLint.Proofs.MessagePack.Forms

/-!
# Descriptions of images

`Described` says which values describe an image: every record on the way may give its fields in any
order, under names or positions or without keys, and leave out what is the default anyway. Whatever the
form of such a value and whatever bytes come after it, the image is decoded (`decode_described`). A value
with a record in it that lacks a field without a default, or that gives a field twice, is `Flawed`, and
no image is decoded from any form of it.
-/

namespace RuleLint.Image

open MessagePack (Value Written readValue readValue_mono)
open Text (Bytes encodeUtf8 littleEndian)

/-! ## Records -/

inductive Record
  | image
  | reference
  | typeDef
  | field
  | method
  | param
  | annotation

namespace Record

def names : Record → List String
  | image => ["name", "version", "references", "types"]
  | reference => ["name", "version"]
  | typeDef => ["name", "namespace", "kind", "fields", "methods", "variants"]
  | field => ["name", "ty", "annotations"]
  | method => ["name", "params", "returns"]
  | param => ["name", "ty"]
  | annotation => ["name", "base", "args"]

def required : Record → List String
  | field => ["name", "ty"]
  | param => ["name", "ty"]
  | _ => ["name"]

def parts : Record → List (String × Record)
  | image => [("references", reference), ("types", typeDef)]
  | typeDef => [("fields", field), ("methods", method)]
  | field => [("annotations", annotation)]
  | method => [("params", param)]
  | _ => []

theorem names_nodup (r : Record) : r.names.Nodup := by
  cases r <;> decide

end Record

/-! ## Values of fields -/

inductive Given {α : Type} (tells : Value → α → Prop) : Option Value → α → Prop
  | given {v : Value} {x : α} (told : tells v x) : Given tells (some v) x

inductive GivenOr {α : Type} (default : α) (tells : Value → α → Prop) : Option Value → α → Prop
  | given {v : Value} {x : α} (told : tells v x) : GivenOr default tells (some v) x
  | omitted : GivenOr default tells none default

inductive MaySpell : Value → Option String → Prop
  | nil : MaySpell .nil none
  | text {v : Value} {s : String} (spells : Spells v s) : MaySpell v (some s)

inductive Lists {α : Type} (tells : Value → α → Prop) : Value → List α → Prop
  | array {items : List Value} {xs : List α} (each : List.Forall₂ tells items xs) :
      Lists tells (.array items) xs

inductive NamesKind : Value → TypeKind → Prop
  | name {v : Value} {kind : TypeKind} (spells : Spells v kind.text) : NamesKind v kind
  | position {i : Nat} {kind : TypeKind} (located : TypeKind.all[i]? = some kind) :
      NamesKind (.unsigned i) kind

inductive Chooses : Value → TypeKind → Prop
  | plain {v : Value} {kind : TypeKind} (names : NamesKind v kind) : Chooses v kind
  | entry {v : Value} {kind : TypeKind} (names : NamesKind v kind) : Chooses (.map [(v, .nil)]) kind

section

variable {α : Type} {reader : Value → Option α} {tells : Value → α → Prop} {v : Value}
  {slot : Option Value} {x : α}

/-- What a value tells is what the reader takes it for. -/
def Follows (reader : Value → Option α) (tells : Value → α → Prop) : Prop :=
  ∀ v x, tells v x → reader v = some x

theorem Follows.required (follows : Follows reader tells) (given : Given tells slot x) :
    required reader slot = some x := by
  cases given with
  | given told => exact follows _ _ told

theorem Follows.withDefault {default : α} (follows : Follows reader tells)
    (given : GivenOr default tells slot x) : withDefault default reader slot = some x := by
  cases given with
  | given told => exact follows _ _ told
  | omitted => rfl

theorem Follows.listOf (follows : Follows reader tells) :
    Follows (packed.listOf reader) (Lists tells) := by
  rintro - xs ⟨each⟩
  change List.mapM reader _ = some xs
  induction each with
  | nil => rfl
  | cons told others ih => simp [follows _ _ told, ih]

theorem follows_text : Follows packed.text Spells := fun _ _ spells => spells.string?

theorem follows_optionalText : Follows packed.optionalText MaySpell := by
  intro v s spells
  cases spells with
  | nil => rfl
  | text spells => cases spells <;> simp [packed, Value.string?, Value.bytes?]

theorem NamesKind.name? {kind : TypeKind} (names : NamesKind v kind) :
    packedName? (TypeKind.all.map TypeKind.text) v = some kind.text := by
  cases names with
  | name spells =>
      have known : kind.text ∈ TypeKind.all.map TypeKind.text := by cases kind <;> decide
      cases spells <;> simpa [packedName?, Value.string?, Value.bytes?] using known
  | position located => simp [packedName?, located]

theorem follows_kind : Follows packed.kind Chooses := by
  intro v kind chooses
  have chosen : packed.choice (TypeKind.all.map TypeKind.text) v = some kind.text := by
    cases chooses with
    | plain names =>
        have named := names.name?
        cases names with
        | name spells => cases spells <;> exact named
        | position located => exact named
    | entry names => exact names.name?
  rw [Format.kind, chosen]
  cases kind <;> rfl

end

/-! ## Descriptions -/

def Annotation.Described (v : Value) (a : Annotation) : Prop :=
  ∃ name base args, Gives Record.annotation.names v [name, base, args] ∧
    Given Spells name a.name ∧ GivenOr none MaySpell base a.base ∧
    GivenOr [] (Lists Spells) args a.args

def Field.Described (v : Value) (f : Field) : Prop :=
  ∃ name ty annotations, Gives Record.field.names v [name, ty, annotations] ∧
    Given Spells name f.name ∧ Given Spells ty f.ty ∧
    GivenOr [] (Lists Annotation.Described) annotations f.annotations

def Param.Described (v : Value) (p : Param) : Prop :=
  ∃ name ty, Gives Record.param.names v [name, ty] ∧
    Given Spells name p.name ∧ Given Spells ty p.ty

def Method.Described (v : Value) (m : Method) : Prop :=
  ∃ name params returns, Gives Record.method.names v [name, params, returns] ∧
    Given Spells name m.name ∧ GivenOr [] (Lists Param.Described) params m.params ∧
    GivenOr "void" Spells returns m.returns

def TypeDef.Described (v : Value) (t : TypeDef) : Prop :=
  ∃ name qualifier kind fields methods variants,
    Gives Record.typeDef.names v [name, qualifier, kind, fields, methods, variants] ∧
    Given Spells name t.name ∧ GivenOr none MaySpell qualifier t.qualifier ∧
    GivenOr .object Chooses kind t.kind ∧ GivenOr [] (Lists Field.Described) fields t.fields ∧
    GivenOr [] (Lists Method.Described) methods t.methods ∧
    GivenOr [] (Lists Spells) variants t.variants

def Reference.Described (v : Value) (r : Reference) : Prop :=
  ∃ name version, Gives Record.reference.names v [name, version] ∧
    Given Spells name r.name ∧ GivenOr none MaySpell version r.version

def Described (v : Value) (image : Image) : Prop :=
  ∃ name version references types,
    Gives Record.image.names v [name, version, references, types] ∧
    Given Spells name image.name ∧ GivenOr none MaySpell version image.version ∧
    GivenOr [] (Lists Reference.Described) references image.references ∧
    GivenOr [] (Lists TypeDef.Described) types image.types

variable {v : Value}

/-! ## Readers -/

theorem annotation_eq_some {a : Annotation} : packed.annotation v = some a ↔
    ∃ name base args, packed.fields Record.annotation.names v = some [name, base, args] ∧
      required packed.text name = some a.name ∧
      withDefault none packed.optionalText base = some a.base ∧
      withDefault [] (packed.listOf packed.text) args = some a.args := by
  obtain ⟨_, _, _⟩ := a
  constructor
  · intro read
    simp only [Format.annotation, Option.bind_eq_bind, Option.bind_eq_some_iff] at read
    obtain ⟨slots, fields, read⟩ := read
    split at read
    · simp only [Option.bind_eq_some_iff, Option.pure_def, Option.some.injEq,
        Annotation.mk.injEq] at read
      obtain ⟨_, nameRead, _, baseRead, _, argsRead, rfl, rfl, rfl⟩ := read
      exact ⟨_, _, _, fields, nameRead, baseRead, argsRead⟩
    · cases read
  · rintro ⟨_, _, _, fields, nameRead, baseRead, argsRead⟩
    change packed.fields ["name", "base", "args"] v = _ at fields
    simp [Format.annotation, fields, nameRead, baseRead, argsRead]

theorem field_eq_some {f : Field} : packed.field v = some f ↔
    ∃ name ty annotations, packed.fields Record.field.names v = some [name, ty, annotations] ∧
      required packed.text name = some f.name ∧
      required packed.text ty = some f.ty ∧
      withDefault [] (packed.listOf packed.annotation) annotations = some f.annotations := by
  obtain ⟨_, _, _⟩ := f
  constructor
  · intro read
    simp only [Format.field, Option.bind_eq_bind, Option.bind_eq_some_iff] at read
    obtain ⟨slots, fields, read⟩ := read
    split at read
    · simp only [Option.bind_eq_some_iff, Option.pure_def, Option.some.injEq, Field.mk.injEq] at read
      obtain ⟨_, nameRead, _, tyRead, _, annotationsRead, rfl, rfl, rfl⟩ := read
      exact ⟨_, _, _, fields, nameRead, tyRead, annotationsRead⟩
    · cases read
  · rintro ⟨_, _, _, fields, nameRead, tyRead, annotationsRead⟩
    change packed.fields ["name", "ty", "annotations"] v = _ at fields
    simp [Format.field, fields, nameRead, tyRead, annotationsRead]

theorem param_eq_some {p : Param} : packed.param v = some p ↔
    ∃ name ty, packed.fields Record.param.names v = some [name, ty] ∧
      required packed.text name = some p.name ∧
      required packed.text ty = some p.ty := by
  obtain ⟨_, _⟩ := p
  constructor
  · intro read
    simp only [Format.param, Option.bind_eq_bind, Option.bind_eq_some_iff] at read
    obtain ⟨slots, fields, read⟩ := read
    split at read
    · simp only [Option.bind_eq_some_iff, Option.pure_def, Option.some.injEq, Param.mk.injEq] at read
      obtain ⟨_, nameRead, _, tyRead, rfl, rfl⟩ := read
      exact ⟨_, _, fields, nameRead, tyRead⟩
    · cases read
  · rintro ⟨_, _, fields, nameRead, tyRead⟩
    change packed.fields ["name", "ty"] v = _ at fields
    simp [Format.param, fields, nameRead, tyRead]

theorem method_eq_some {m : Method} : packed.method v = some m ↔
    ∃ name params returns, packed.fields Record.method.names v = some [name, params, returns] ∧
      required packed.text name = some m.name ∧
      withDefault [] (packed.listOf packed.param) params = some m.params ∧
      withDefault "void" packed.text returns = some m.returns := by
  obtain ⟨_, _, _⟩ := m
  constructor
  · intro read
    simp only [Format.method, Option.bind_eq_bind, Option.bind_eq_some_iff] at read
    obtain ⟨slots, fields, read⟩ := read
    split at read
    · simp only [Option.bind_eq_some_iff, Option.pure_def, Option.some.injEq, Method.mk.injEq] at read
      obtain ⟨_, nameRead, _, paramsRead, _, returnsRead, rfl, rfl, rfl⟩ := read
      exact ⟨_, _, _, fields, nameRead, paramsRead, returnsRead⟩
    · cases read
  · rintro ⟨_, _, _, fields, nameRead, paramsRead, returnsRead⟩
    change packed.fields ["name", "params", "returns"] v = _ at fields
    simp [Format.method, fields, nameRead, paramsRead, returnsRead]

theorem typeDef_eq_some {t : TypeDef} : packed.typeDef v = some t ↔
    ∃ name qualifier kind fields methods variants,
      packed.fields Record.typeDef.names v =
        some [name, qualifier, kind, fields, methods, variants] ∧
      required packed.text name = some t.name ∧
      withDefault none packed.optionalText qualifier = some t.qualifier ∧
      withDefault .object packed.kind kind = some t.kind ∧
      withDefault [] (packed.listOf packed.field) fields = some t.fields ∧
      withDefault [] (packed.listOf packed.method) methods = some t.methods ∧
      withDefault [] (packed.listOf packed.text) variants = some t.variants := by
  obtain ⟨_, _, _, _, _, _⟩ := t
  constructor
  · intro read
    simp only [Format.typeDef, Option.bind_eq_bind, Option.bind_eq_some_iff] at read
    obtain ⟨slots, fields, read⟩ := read
    split at read
    · simp only [Option.bind_eq_some_iff, Option.pure_def, Option.some.injEq, TypeDef.mk.injEq] at read
      obtain ⟨_, nameRead, _, qualifierRead, _, kindRead, _, fieldsRead, _, methodsRead, _, variantsRead,
        rfl, rfl, rfl, rfl, rfl, rfl⟩ := read
      exact ⟨_, _, _, _, _, _, fields, nameRead, qualifierRead, kindRead, fieldsRead, methodsRead,
        variantsRead⟩
    · cases read
  · rintro ⟨_, _, _, _, _, _, fields, nameRead, qualifierRead, kindRead, fieldsRead, methodsRead,
      variantsRead⟩
    change packed.fields ["name", "namespace", "kind", "fields", "methods", "variants"] v = _ at fields
    simp [Format.typeDef, fields, nameRead, qualifierRead, kindRead, fieldsRead, methodsRead,
      variantsRead]

theorem reference_eq_some {r : Reference} : packed.reference v = some r ↔
    ∃ name version, packed.fields Record.reference.names v = some [name, version] ∧
      required packed.text name = some r.name ∧
      withDefault none packed.optionalText version = some r.version := by
  obtain ⟨_, _⟩ := r
  constructor
  · intro read
    simp only [Format.reference, Option.bind_eq_bind, Option.bind_eq_some_iff] at read
    obtain ⟨slots, fields, read⟩ := read
    split at read
    · simp only [Option.bind_eq_some_iff, Option.pure_def, Option.some.injEq,
        Reference.mk.injEq] at read
      obtain ⟨_, nameRead, _, versionRead, rfl, rfl⟩ := read
      exact ⟨_, _, fields, nameRead, versionRead⟩
    · cases read
  · rintro ⟨_, _, fields, nameRead, versionRead⟩
    change packed.fields ["name", "version"] v = _ at fields
    simp [Format.reference, fields, nameRead, versionRead]

theorem image_eq_some {image : Image} : packed.image v = some image ↔
    ∃ name version references types,
      packed.fields Record.image.names v = some [name, version, references, types] ∧
      required packed.text name = some image.name ∧
      withDefault none packed.optionalText version = some image.version ∧
      withDefault [] (packed.listOf packed.reference) references = some image.references ∧
      withDefault [] (packed.listOf packed.typeDef) types = some image.types := by
  obtain ⟨_, _, _, _⟩ := image
  constructor
  · intro read
    simp only [Format.image, Option.bind_eq_bind, Option.bind_eq_some_iff] at read
    obtain ⟨slots, fields, read⟩ := read
    split at read
    · simp only [Option.bind_eq_some_iff, Option.pure_def, Option.some.injEq, Image.mk.injEq] at read
      obtain ⟨_, nameRead, _, versionRead, _, referencesRead, _, typesRead,
        rfl, rfl, rfl, rfl⟩ := read
      exact ⟨_, _, _, _, fields, nameRead, versionRead, referencesRead, typesRead⟩
    · cases read
  · rintro ⟨_, _, _, _, fields, nameRead, versionRead, referencesRead, typesRead⟩
    change packed.fields ["name", "version", "references", "types"] v = _ at fields
    simp [Format.image, fields, nameRead, versionRead, referencesRead, typesRead]

/-! ## Described images -/

theorem follows_annotation : Follows packed.annotation Annotation.Described := by
  rintro v x ⟨_, _, _, gives, name, base, args⟩
  exact annotation_eq_some.mpr ⟨_, _, _, fields_of_gives Record.annotation.names_nodup gives,
    follows_text.required name, follows_optionalText.withDefault base,
    follows_text.listOf.withDefault args⟩

theorem follows_field : Follows packed.field Field.Described := by
  rintro v x ⟨_, _, _, gives, name, ty, annotations⟩
  exact field_eq_some.mpr ⟨_, _, _, fields_of_gives Record.field.names_nodup gives,
    follows_text.required name, follows_text.required ty,
    follows_annotation.listOf.withDefault annotations⟩

theorem follows_param : Follows packed.param Param.Described := by
  rintro v x ⟨_, _, gives, name, ty⟩
  exact param_eq_some.mpr ⟨_, _, fields_of_gives Record.param.names_nodup gives,
    follows_text.required name, follows_text.required ty⟩

theorem follows_method : Follows packed.method Method.Described := by
  rintro v x ⟨_, _, _, gives, name, params, returns⟩
  exact method_eq_some.mpr ⟨_, _, _, fields_of_gives Record.method.names_nodup gives,
    follows_text.required name, follows_param.listOf.withDefault params,
    follows_text.withDefault returns⟩

theorem follows_typeDef : Follows packed.typeDef TypeDef.Described := by
  rintro v x ⟨_, _, _, _, _, _, gives, name, qualifier, kind, fields, methods, variants⟩
  exact typeDef_eq_some.mpr ⟨_, _, _, _, _, _, fields_of_gives Record.typeDef.names_nodup gives,
    follows_text.required name, follows_optionalText.withDefault qualifier,
    follows_kind.withDefault kind, follows_field.listOf.withDefault fields,
    follows_method.listOf.withDefault methods, follows_text.listOf.withDefault variants⟩

theorem follows_reference : Follows packed.reference Reference.Described := by
  rintro v x ⟨_, _, gives, name, version⟩
  exact reference_eq_some.mpr ⟨_, _, fields_of_gives Record.reference.names_nodup gives,
    follows_text.required name, follows_optionalText.withDefault version⟩

theorem follows_image : Follows packed.image Described := by
  rintro v x ⟨_, _, _, _, gives, name, version, references, types⟩
  exact image_eq_some.mpr ⟨_, _, _, _, fields_of_gives Record.image.names_nodup gives,
    follows_text.required name, follows_optionalText.withDefault version,
    follows_reference.listOf.withDefault references, follows_typeDef.listOf.withDefault types⟩

/-! ## Flawed values -/

/-- Somewhere in the value, where a record has to be, a field without a default is not given, or a field
is given twice. -/
inductive Flawed : Record → Value → Prop
  | lacks {r : Record} {v : Value} {name : String} (required : name ∈ r.required)
      (nowhere : ∀ value, ¬ Holds r.names name v value) : Flawed r v
  | repeats {r : Record} {v : Value} (twice : Repeats r.names v) : Flawed r v
  | part {r inner : Record} {v item : Value} {name : String} {items : List Value}
      (part : (name, inner) ∈ r.parts) (holds : Holds r.names name v (.array items))
      (member : item ∈ items) (flawed : Flawed inner item) : Flawed r v

def Record.Accepts : Record → Value → Prop
  | image, v => ∃ x, packed.image v = some x
  | reference, v => ∃ x, packed.reference v = some x
  | typeDef, v => ∃ x, packed.typeDef v = some x
  | field, v => ∃ x, packed.field v = some x
  | method, v => ∃ x, packed.method v = some x
  | param, v => ∃ x, packed.param v = some x
  | annotation, v => ∃ x, packed.annotation v = some x

section

variable {α : Type} {names : List String} {name : String} {i : Nat} {slots : List (Option Value)}
  {slot : Option Value} {reader : Value → Option α}

theorem holds_of_required {x : α} (distinct : names.Nodup) (located : names[i]? = some name)
    (fields : packed.fields names v = some slots) (there : slots[i]? = some slot)
    (read : required reader slot = some x) : ∃ value, Holds names name v value := by
  cases slot with
  | none => cases read
  | some value => exact holds_of_slot distinct located fields there

theorem accepted_of_mem {xs : List α} {items : List Value} (distinct : names.Nodup)
    (located : names[i]? = some name) (fields : packed.fields names v = some slots)
    (there : slots[i]? = some slot) (read : withDefault [] (packed.listOf reader) slot = some xs)
    (holds : Holds names name v (.array items)) {item : Value} (member : item ∈ items) :
    ∃ x, reader item = some x := by
  have held := slot_of_holds distinct located fields holds
  rw [there, Option.some.injEq] at held
  subst held
  change List.mapM reader items = some xs at read
  clear holds fields there
  induction items generalizing xs with
  | nil => cases member
  | cons first items ih =>
      simp only [List.mapM_cons, Option.bind_eq_bind, Option.bind_eq_some_iff] at read
      obtain ⟨x, firstRead, others, othersRead, -⟩ := read
      rcases List.mem_cons.mp member with rfl | later
      · exact ⟨x, firstRead⟩
      · exact ih later othersRead

end

structure Record.Sound (r : Record) (v : Value) : Prop where
  fields : ∃ slots, packed.fields r.names v = some slots
  required : ∀ name ∈ r.required, ∃ value, Holds r.names name v value
  parts : ∀ part ∈ r.parts, ∀ items, Holds r.names part.1 v (.array items) →
    ∀ item ∈ items, part.2.Accepts item

theorem Record.Accepts.sound {r : Record} (accepts : r.Accepts v) : r.Sound v := by
  have distinct := r.names_nodup
  cases r with
  | image =>
      obtain ⟨_, read⟩ := accepts
      obtain ⟨_, _, _, _, fields, nameRead, -, referencesRead, typesRead⟩ := image_eq_some.mp read
      refine ⟨⟨_, fields⟩, List.forall_mem_singleton.mpr ?_,
        List.forall_mem_cons.mpr ⟨?_, List.forall_mem_singleton.mpr ?_⟩⟩
      · exact holds_of_required distinct (i := 0) rfl fields rfl nameRead
      · exact fun items holds item =>
          accepted_of_mem distinct (i := 2) rfl fields rfl referencesRead holds
      · exact fun items holds item => accepted_of_mem distinct (i := 3) rfl fields rfl typesRead holds
  | reference =>
      obtain ⟨_, read⟩ := accepts
      obtain ⟨_, _, fields, nameRead, -⟩ := reference_eq_some.mp read
      refine ⟨⟨_, fields⟩, List.forall_mem_singleton.mpr ?_, List.forall_mem_nil _⟩
      exact holds_of_required distinct (i := 0) rfl fields rfl nameRead
  | typeDef =>
      obtain ⟨_, read⟩ := accepts
      obtain ⟨_, _, _, _, _, _, fields, nameRead, -, -, fieldsRead, methodsRead, -⟩ :=
        typeDef_eq_some.mp read
      refine ⟨⟨_, fields⟩, List.forall_mem_singleton.mpr ?_,
        List.forall_mem_cons.mpr ⟨?_, List.forall_mem_singleton.mpr ?_⟩⟩
      · exact holds_of_required distinct (i := 0) rfl fields rfl nameRead
      · exact fun items holds item => accepted_of_mem distinct (i := 3) rfl fields rfl fieldsRead holds
      · exact fun items holds item =>
          accepted_of_mem distinct (i := 4) rfl fields rfl methodsRead holds
  | field =>
      obtain ⟨_, read⟩ := accepts
      obtain ⟨_, _, _, fields, nameRead, tyRead, annotationsRead⟩ := field_eq_some.mp read
      refine ⟨⟨_, fields⟩, List.forall_mem_cons.mpr ⟨?_, List.forall_mem_singleton.mpr ?_⟩,
        List.forall_mem_singleton.mpr ?_⟩
      · exact holds_of_required distinct (i := 0) rfl fields rfl nameRead
      · exact holds_of_required distinct (i := 1) rfl fields rfl tyRead
      · exact fun items holds item =>
          accepted_of_mem distinct (i := 2) rfl fields rfl annotationsRead holds
  | method =>
      obtain ⟨_, read⟩ := accepts
      obtain ⟨_, _, _, fields, nameRead, paramsRead, -⟩ := method_eq_some.mp read
      refine ⟨⟨_, fields⟩, List.forall_mem_singleton.mpr ?_, List.forall_mem_singleton.mpr ?_⟩
      · exact holds_of_required distinct (i := 0) rfl fields rfl nameRead
      · exact fun items holds item => accepted_of_mem distinct (i := 1) rfl fields rfl paramsRead holds
  | param =>
      obtain ⟨_, read⟩ := accepts
      obtain ⟨_, _, fields, nameRead, tyRead⟩ := param_eq_some.mp read
      refine ⟨⟨_, fields⟩, List.forall_mem_cons.mpr ⟨?_, List.forall_mem_singleton.mpr ?_⟩,
        List.forall_mem_nil _⟩
      · exact holds_of_required distinct (i := 0) rfl fields rfl nameRead
      · exact holds_of_required distinct (i := 1) rfl fields rfl tyRead
  | annotation =>
      obtain ⟨_, read⟩ := accepts
      obtain ⟨_, _, _, fields, nameRead, -⟩ := annotation_eq_some.mp read
      refine ⟨⟨_, fields⟩, List.forall_mem_singleton.mpr ?_, List.forall_mem_nil _⟩
      exact holds_of_required distinct (i := 0) rfl fields rfl nameRead

theorem Flawed.refused {r : Record} (flawed : Flawed r v) : ¬ r.Accepts v := by
  intro accepts
  induction flawed with
  | lacks required nowhere =>
      obtain ⟨value, holds⟩ := accepts.sound.required _ required
      exact nowhere value holds
  | @repeats r v twice =>
      obtain ⟨slots, fields⟩ := accepts.sound.fields
      cases (not_fields_of_repeats r.names_nodup twice).symm.trans fields
  | part part holds member flawed ih => exact ih (accepts.sound.parts _ part _ holds _ member)

/-! ## Contents -/

def wrap (content : Bytes) : Bytes :=
  magic ++ littleEndian 2 formatVersion ++ littleEndian 4 content.length ++ content

theorem decode_wrap {content : Bytes} (fits : content.length < 2 ^ 32) :
    decode (wrap content) = (ofPayload? content).elim (.error .invalidPayload) .ok := by
  rw [wrap, decode_of_header fits, if_pos rfl]

/-- Whatever its form, and whatever comes after it, a description of an image is decoded as the image,
and a flawed value is decoded as none. -/
theorem decode_described {depth : Nat} {v : Value} {bytes extra : Bytes}
    (written : Written depth v bytes) (fits : (bytes ++ extra).length < 2 ^ 32) :
    (depth ≤ maxNesting → ∀ image, Described v image → decode (wrap (bytes ++ extra)) = .ok image) ∧
    (Flawed .image v → decode (wrap (bytes ++ extra)) = .error .invalidPayload) := by
  constructor
  · intro shallow image described
    have read := readValue_mono shallow (written.read extra)
    rw [decode_wrap fits, ofPayload?, read]
    simp [follows_image v image described]
  · intro flawed
    have none : ofPayload? (bytes ++ extra) = none := by
      rw [Option.eq_none_iff_forall_ne_some]
      intro image decoded
      simp only [ofPayload?, Option.bind_eq_bind, Option.bind_eq_some_iff] at decoded
      obtain ⟨⟨value, rest⟩, read, accepted⟩ := decoded
      -- The reader may give up within the value, but it does not take it for another.
      have deeper := readValue_mono (Nat.le_max_left maxNesting depth) read
      have again := readValue_mono (Nat.le_max_right maxNesting depth) (written.read extra)
      cases deeper.symm.trans again
      exact flawed.refused ⟨image, accepted⟩
    rw [decode_wrap fits, none]
    rfl

/-! A description whose entries have a position, bytes and a number that is no position for keys, and in
which a type is an array without its last fields. With another entry for the name it is flawed. -/

namespace Shuffled

open MessagePack (Head binaryLeads textLeads extensionLeads unsignedLeads mapLeads)

abbrev Entry : Type := (Value × Bytes) × (Value × Bytes)

def image : Image := ⟨"A", none, [], [⟨"T", none, .enumeration, [], [], []⟩]⟩

def foreign : Entry := ((.unsigned 9, [9]), (.extension [5], [0xC7, 0, 5]))

def name : Entry :=
  ((.binary (encodeUtf8 "name"), [0xC4, 4] ++ encodeUtf8 "name"),
    (.text (encodeUtf8 "A"), [0xD9, 1] ++ encodeUtf8 "A"))

def kind : Entry := ((.unsigned 1, [0xCC, 1]), (.nil, [0xC0]))

def items : List (Value × Bytes) :=
  [(.binary (encodeUtf8 "T"), [0xC4, 1] ++ encodeUtf8 "T"), (.nil, [0xC0]),
    (.map [(kind.1.1, kind.2.1)], 0x81 :: (kind.1.2 ++ kind.2.2))]

def types : Entry :=
  ((.unsigned 3, [0xCD, 0, 3]),
    (.array [.array (items.map (·.1))], 0x91 :: 0x93 :: items.flatMap (·.2)))

def again : Entry := ((.unsigned 0, [0]), (.nil, [0xC0]))

def value (entries : List Entry) : Value := .map (entries.map fun entry => (entry.1.1, entry.2.1))

def bytes (entries : List Entry) : Bytes :=
  0xDE :: Text.bigEndian 2 entries.length ++ entries.flatMap fun entry => entry.1.2 ++ entry.2.2

theorem written_foreign :
    Written 3 foreign.1.1 foreign.1.2 ∧ Written 3 foreign.2.1 foreign.2.2 := by
  have head : Head 0 0 extensionLeads 0 [0xC7, 0] :=
    @Head.wide 0 0 _ 0 1 0xC7 (by decide) (by decide)
  exact ⟨.unsigned 3 (.short (by decide)), @Written.extension 2 5 [] _ head⟩

theorem written_name : Written 3 name.1.1 name.1.2 ∧ Written 3 name.2.1 name.2.2 :=
  ⟨.binary 3 (@Head.wide 0 0 binaryLeads 4 1 0xC4 (by decide) (by decide)),
    .text 3 (@Head.wide 32 0xA0 textLeads 1 1 0xD9 (by decide) (by decide))⟩

theorem written_again : Written 3 again.1.1 again.1.2 ∧ Written 3 again.2.1 again.2.2 :=
  ⟨.unsigned 3 (.short (by decide)), .nil 3⟩

theorem written_kind : Written 1 (.map [(kind.1.1, kind.2.1)]) (0x81 :: (kind.1.2 ++ kind.2.2)) := by
  have head : Head 16 0x80 mapLeads [kind].length [0x81] := .short (by decide)
  have key : Written 0 kind.1.1 kind.1.2 :=
    .unsigned 0 (@Head.wide 128 0 unsignedLeads 1 1 0xCC (by decide) (by decide))
  exact .map head (List.forall_mem_singleton.mpr key) (List.forall_mem_singleton.mpr (.nil 0))

theorem written_types : Written 3 types.1.1 types.1.2 ∧ Written 3 types.2.1 types.2.2 := by
  have key : Written 3 types.1.1 types.1.2 :=
    .unsigned 3 (@Head.wide 128 0 unsignedLeads 3 2 0xCD (by decide) (by decide))
  have text : Written 1 (.binary (encodeUtf8 "T")) ([0xC4, 1] ++ encodeUtf8 "T") :=
    .binary 1 (@Head.wide 0 0 binaryLeads 1 1 0xC4 (by decide) (by decide))
  have each : ∀ item ∈ items, Written 1 item.1 item.2 :=
    List.forall_mem_cons.mpr ⟨text, List.forall_mem_cons.mpr
      ⟨.nil 1, List.forall_mem_singleton.mpr written_kind⟩⟩
  have inner : Written 2 (.array (items.map (·.1))) ([0x93] ++ items.flatMap (·.2)) :=
    .array (.short (by decide)) each
  exact ⟨key, @Written.array 2 [(_, _)] [0x91] (.short (by decide))
    (List.forall_mem_singleton.mpr inner)⟩

theorem written {entries : List Entry}
    (each : ∀ entry ∈ entries, Written 3 entry.1.1 entry.1.2 ∧ Written 3 entry.2.1 entry.2.2)
    (few : entries.length < 256 ^ 2) : Written 4 (value entries) (bytes entries) :=
  .map (.wide (by decide) few) (fun entry member => (each entry member).1)
    fun entry member => (each entry member).2

theorem described : Described (value [foreign, types, name]) image := by
  have others : ∀ entry ∈ [(foreign.1.1, foreign.2.1)], Foreign Record.image.names entry.1 :=
    List.forall_mem_singleton.mpr (.position (by decide))
  have rows : Rows Record.image.names Record.image.names
      [some name.2.1, none, none, some types.2.1] [(name.1.1, name.2.1), (types.1.1, types.2.1)] :=
    .given (.name (.binary "name") (by decide)) (.omitted (.omitted (.given (.position rfl) .nil)))
  have type : TypeDef.Described (.array (items.map (·.1))) ⟨"T", none, .enumeration, [], [], []⟩ :=
    ⟨_, _, _, _, _, _, .array (by decide), .given (.binary "T"), .given .nil,
      .given (.entry (.position rfl)), .omitted, .omitted, .omitted⟩
  refine ⟨_, _, _, _, .map rows others ?_, .given (.text "A"), .omitted, .omitted,
    .given (.array (.cons type .nil))⟩
  exact (List.reverse_perm
    [(foreign.1.1, foreign.2.1), (types.1.1, types.2.1), (name.1.1, name.2.1)]).symm

theorem flawed : Flawed .image (value [foreign, again, name]) := by
  have order : [(foreign.1.1, foreign.2.1), (again.1.1, again.2.1), (name.1.1, name.2.1)].Perm
      [(again.1.1, again.2.1), (name.1.1, name.2.1), (foreign.1.1, foreign.2.1)] :=
    @List.perm_append_comm _ [(foreign.1.1, foreign.2.1)]
      [(again.1.1, again.2.1), (name.1.1, name.2.1)]
  exact .repeats (.entries (by decide) (.position rfl) (.name (.binary "name") (by decide)) order)

theorem decode_orders :
    Described (value [foreign, types, name]) image ∧
      decode (wrap (bytes [foreign, types, name] ++ [0xC1])) = .ok image ∧
      Flawed .image (value [foreign, again, name]) ∧
      decode (wrap (bytes [foreign, again, name] ++ [])) = .error .invalidPayload := by
  have shuffled : ∀ entry ∈ [foreign, types, name],
      Written 3 entry.1.1 entry.1.2 ∧ Written 3 entry.2.1 entry.2.2 := by
    simp only [List.forall_mem_cons, written_foreign, written_types, written_name, and_self,
      List.not_mem_nil, false_implies, implies_true]
  have doubled : ∀ entry ∈ [foreign, again, name],
      Written 3 entry.1.1 entry.1.2 ∧ Written 3 entry.2.1 entry.2.2 := by
    simp only [List.forall_mem_cons, written_foreign, written_again, written_name, and_self,
      List.not_mem_nil, false_implies, implies_true]
  refine ⟨described, ?_, flawed, ?_⟩
  · exact (decode_described (written shuffled (by decide)) (by decide)).1 (by decide) image described
  · exact (decode_described (written doubled (by decide)) (by decide)).2 flawed

end Shuffled

end RuleLint.Image
