import RuleLint.Image.Basic

namespace RuleLint.Image

variable {m : Type → Type} [Monad m] [MonadExceptOf Unit m] {ν : Type}

structure Format (m : Type → Type) (ν : Type) where
  fields : List String → ν → m (List (Option ν))
  text : ν → m String
  optionalText : ν → m (Option String)
  items : ν → m (List ν)
  choice : List String → ν → m String

/-- The entries of a record put into one slot for each field. The key of an entry is no key at all,
or that of no known field, or the position of a field. A field may be given only once. -/
def fillSlots {κ : Type} (position : κ → m (Option Nat)) :
    List (κ × ν) → List (Option ν) → m (List (Option ν))
  | [], slots => pure slots
  | (key, value) :: entries, slots => do
    match ← position key with
    | none => fillSlots position entries slots
    | some i =>
      match slots[i]? with
      | some none => fillSlots position entries (slots.set i (some value))
      | _ => throw ()

def required {α : Type} (read : ν → m α) : Option ν → m α
  | none => throw ()
  | some value => read value

def withDefault {α : Type} (default : α) (read : ν → m α) : Option ν → m α
  | none => pure default
  | some value => read value

namespace Format

variable (f : Format m ν)

def listOf {α : Type} (read : ν → m α) (v : ν) : m (List α) := do
  (← f.items v).mapM read

def kind (v : ν) : m TypeKind := do
  (TypeKind.ofText? (← f.choice (TypeKind.all.map TypeKind.text) v)).elim (throw ()) pure

def annotation (v : ν) : m Annotation := do
  match ← f.fields ["name", "base", "args"] v with
  | [name, base, args] =>
    return {
      name := ← required f.text name
      base := ← withDefault none f.optionalText base
      args := ← withDefault [] (f.listOf f.text) args }
  | _ => throw ()

def field (v : ν) : m Field := do
  match ← f.fields ["name", "ty", "annotations"] v with
  | [name, ty, annotations] =>
    return {
      name := ← required f.text name
      ty := ← required f.text ty
      annotations := ← withDefault [] (f.listOf f.annotation) annotations }
  | _ => throw ()

def param (v : ν) : m Param := do
  match ← f.fields ["name", "ty"] v with
  | [name, ty] => return { name := ← required f.text name, ty := ← required f.text ty }
  | _ => throw ()

def method (v : ν) : m Method := do
  match ← f.fields ["name", "params", "returns"] v with
  | [name, params, returns] =>
    return {
      name := ← required f.text name
      params := ← withDefault [] (f.listOf f.param) params
      returns := ← withDefault "void" f.text returns }
  | _ => throw ()

def typeDef (v : ν) : m TypeDef := do
  match ← f.fields ["name", "namespace", "kind", "fields", "methods", "variants"] v with
  | [name, qualifier, kind, fields, methods, variants] =>
    return {
      name := ← required f.text name
      qualifier := ← withDefault none f.optionalText qualifier
      kind := ← withDefault .object f.kind kind
      fields := ← withDefault [] (f.listOf f.field) fields
      methods := ← withDefault [] (f.listOf f.method) methods
      variants := ← withDefault [] (f.listOf f.text) variants }
  | _ => throw ()

def reference (v : ν) : m Reference := do
  match ← f.fields ["name", "version"] v with
  | [name, version] =>
    return {
      name := ← required f.text name
      version := ← withDefault none f.optionalText version }
  | _ => throw ()

def image (v : ν) : m Image := do
  match ← f.fields ["name", "version", "references", "types"] v with
  | [name, version, references, types] =>
    return {
      name := ← required f.text name
      version := ← withDefault none f.optionalText version
      references := ← withDefault [] (f.listOf f.reference) references
      types := ← withDefault [] (f.listOf f.typeDef) types }
  | _ => throw ()

end Format

end RuleLint.Image
