import Mathlib.Data.List.Forall2
import Mathlib.Data.Option.Basic
import RuleLint.Proofs.Rule.Lookup

namespace RuleLint

open Image (TypeDef Field Method Param)

variable {R : String → String → Prop}

structure Image.Field.Retyped (R : String → String → Prop) (f f' : Field) : Prop where
  name : f'.name = f.name
  ty : R f.ty f'.ty

structure Image.Method.Retyped (R : String → String → Prop) (m m' : Method) : Prop where
  name : m'.name = m.name
  params : List.Forall₂ (fun p p' : Param => R p.ty p'.ty) m.params m'.params
  returns : R m.returns m'.returns

structure Image.TypeDef.Retyped (R : String → String → Prop) (t t' : TypeDef) : Prop where
  name : t'.name = t.name
  qualifier : t'.qualifier = t.qualifier
  kind : t'.kind = t.kind
  variants : t'.variants = t.variants
  fields : List.Forall₂ (Field.Retyped R) t.fields t'.fields
  methods : List.Forall₂ (Method.Retyped R) t.methods t'.methods

inductive Module.Retyped (R : String → String → Prop) : Module → Module → Prop
  | node {m m' : Module}
      (types : List.Forall₂ (TypeDef.Retyped R) m.image.types m'.image.types)
      (dependencies : List.Forall₂ (Module.Retyped R) m.dependencies m'.dependencies) :
      Module.Retyped R m m'

theorem rel_cases {α β : Type} {S : α → β → Prop} {x : Option α} {y : Option β}
    (related : Option.Rel S x y) :
    (x = none ∧ y = none) ∨ ∃ a b, x = some a ∧ y = some b ∧ S a b := by
  cases related with
  | none => exact .inl ⟨rfl, rfl⟩
  | some related => exact .inr ⟨_, _, rfl, rfl, related⟩

theorem rel_find? {α β : Type} {S : α → β → Prop} {p : α → Bool} {q : β → Bool} {xs : List α}
    {ys : List β} (each : List.Forall₂ S xs ys) (same : ∀ x y, S x y → p x = q y) :
    Option.Rel S (xs.find? p) (ys.find? q) := by
  induction each with
  | nil => exact .none
  | @cons x y xs ys related rest ih =>
      rw [List.find?_cons, List.find?_cons, same x y related]
      cases q y with
      | true => exact .some related
      | false => exact ih

theorem rel_or {α β : Type} {S : α → β → Prop} {x x' : Option α} {y y' : Option β}
    (first : Option.Rel S x y) (second : Option.Rel S x' y') :
    Option.Rel S (x.or x') (y.or y') := by
  cases first with
  | none => exact second
  | some related => exact .some related

namespace Image.TypeDef.Retyped

variable {t t' : TypeDef} (retyped : t.Retyped R t')

include retyped

theorem matchesName (name : String) : t'.matchesName name = t.matchesName name := by
  rw [TypeDef.matchesName, TypeDef.matchesName, TypeDef.fullName, TypeDef.fullName, retyped.name,
    retyped.qualifier]

theorem isEnumeration : t'.isEnumeration = t.isEnumeration := by
  simp only [TypeDef.isEnumeration, retyped.kind]

theorem hasVariant (name : String) : t'.hasVariant name = t.hasVariant name := by
  simp only [TypeDef.hasVariant, retyped.variants]

theorem field? (name : String) : Option.Rel (Field.Retyped R) (t.field? name) (t'.field? name) :=
  rel_find? retyped.fields fun f f' related => by rw [related.name]

theorem method? (name : String) :
    Option.Rel (Method.Retyped R) (t.method? name) (t'.method? name) :=
  rel_find? retyped.methods fun m m' related => by rw [related.name]

end Image.TypeDef.Retyped

theorem Image.findType?_retyped {image image' : Image}
    (types : List.Forall₂ (TypeDef.Retyped R) image.types image'.types) (name : String) :
    Option.Rel (TypeDef.Retyped R) (image.findType? name) (image'.findType? name) :=
  rel_find? types fun _ _ retyped => (retyped.matchesName name).symm

theorem Module.Retyped.findType? {m m' : Module} (retyped : m.Retyped R m') (name : String) :
    Option.Rel (TypeDef.Retyped R) (m.findType? name) (m'.findType? name) := by
  induction m using Module.induction generalizing m' with
  | node m ih =>
      have below {ds ds' : List Module} (part : ds ⊆ m.dependencies)
          (each : List.Forall₂ (Module.Retyped R) ds ds') :
          Option.Rel (TypeDef.Retyped R) (findTypeIn? name ds) (findTypeIn? name ds') := by
        induction each with
        | nil => exact .none
        | cons first rest ihRest =>
            exact rel_or (ih _ (part (by simp)) first) (ihRest (List.subset_of_cons_subset part))
      cases retyped with
      | node types dependencies =>
          have inside := below (List.Subset.refl _) dependencies
          cases m
          cases m'
          exact rel_or (Image.findType?_retyped types name) inside

namespace Rule

theorem typeMemberType_eq {t t' : TypeDef} (retyped : t.Retyped R t') (name : String) :
    typeMemberType t' name = typeMemberType t name := by
  simp only [typeMemberType, retyped.isEnumeration, retyped.hasVariant, retyped.name]

structure Declaring.Retyped (R : String → String → Prop) (d d' : Declaring) : Prop where
  module : d.module.Retyped R d'.module
  type : d.type.Retyped R d'.type

namespace Declaring.Retyped

variable {d d' : Declaring} (retyped : d.Retyped R d')

include retyped

theorem lookupType? (name : String) :
    Option.Rel (TypeDef.Retyped R) (d.lookupType? name) (d'.lookupType? name) :=
  retyped.module.findType? name

theorem ofDeclared_eq (name : String) : Ty.ofDeclared d' name = Ty.ofDeclared d name := by
  simp only [Ty.ofDeclared]
  rcases rel_cases (retyped.lookupType? (Ty.bareName name)) with
    ⟨unknown, unknown'⟩ | ⟨type, type', found, found', same⟩
  · rw [unknown, unknown']
  · simp only [found, found', same.name, same.isEnumeration]

theorem member?_cases (name : String) :
    (d.member? name = none ∧ d'.member? name = none) ∨
      (∃ f f', d.member? name = some (.field f) ∧ d'.member? name = some (.field f') ∧
        f.Retyped R f') ∨
      ∃ m m', d.member? name = some (.method m) ∧ d'.member? name = some (.method m') := by
  simp only [Declaring.member?]
  rcases rel_cases (retyped.type.field? name) with ⟨absent, absent'⟩ | ⟨f, f', here, here', same⟩
  · rcases rel_cases (retyped.type.method? name) with ⟨none, none'⟩ | ⟨m, m', there, there', -⟩
    · exact .inl (by simp [absent, absent', none, none'])
    · exact .inr (.inr ⟨m, m', by simp [absent, there], by simp [absent', there']⟩)
  · exact .inr (.inl ⟨f, f', by simp [here], by simp [here'], same⟩)

theorem staticType? (e : Expr) :
    Option.Rel (TypeDef.Retyped R) (Rule.staticType? d e) (Rule.staticType? d' e) := by
  rw [Rule.staticType?, Rule.staticType?]
  cases e.path? with
  | none => exact .none
  | some path =>
      cases first : path.head? with
      | none =>
          simp only [Option.bind_eq_bind, Option.bind_some, first, Option.bind_none]
          exact .none
      | some name =>
          simp only [Option.bind_eq_bind, Option.bind_some, first]
          rcases retyped.member?_cases name with
            ⟨absent, absent'⟩ | ⟨f, f', member, member', -⟩ | ⟨m, m', member, member'⟩
          · rw [absent, absent']
            exact retyped.lookupType? _
          · rw [member, member']
            exact .none
          · rw [member, member']
            exact .none

section

variable (means : ∀ {name name'}, R name name' → Ty.ofDeclared d name' = Ty.ofDeclared d name)

include means

theorem signature?_eq (tools : Toolchain) (name : String) :
    signature? d tools name = signature? d' tools name := by
  rw [signature?, signature?]
  rcases rel_cases (retyped.type.method? name) with ⟨absent, absent'⟩ | ⟨m, m', here, here', same⟩
  · rw [absent, absent']
  · have params : m'.params.map (fun p => Ty.ofDeclared d' p.ty) =
        m.params.map fun p => Ty.ofDeclared d p.ty := by
      rw [← List.forall₂_eq_eq_eq, List.forall₂_map_left_iff, List.forall₂_map_right_iff]
      exact same.params.flip.imp fun p' p told => by rw [retyped.ofDeclared_eq, means told]
    rw [here, here']
    simp only [← params, retyped.ofDeclared_eq, means same.returns]

theorem identType_eq (name : String) : identType d name = identType d' name := by
  rw [identType, identType]
  rcases retyped.member?_cases name with
    ⟨absent, absent'⟩ | ⟨f, f', member, member', same⟩ | ⟨m, m', member, member'⟩
  · rw [absent, absent']
    rcases rel_cases (retyped.lookupType? name) with
      ⟨unknown, unknown'⟩ | ⟨type, type', known, known', -⟩
    · rw [unknown, unknown']
    · rw [known, known']
      rfl
  · rw [member, member']
    simp only [retyped.ofDeclared_eq, means same.ty]
  · rw [member, member']

theorem valueMemberType_eq (written : Option String) (ty : Ty) (name : String) :
    valueMemberType d written ty name = valueMemberType d' written ty name := by
  cases ty with
  | object owner =>
      simp only [valueMemberType]
      rcases rel_cases (retyped.lookupType? owner) with
        ⟨absent, absent'⟩ | ⟨type, type', known, known', same⟩
      · rw [absent, absent']
        rfl
      · rw [known, known']
        simp only [Option.bind_eq_bind, Option.bind_some]
        rcases rel_cases (same.field? name) with ⟨none, none'⟩ | ⟨f, f', here, here', alike⟩
        · rw [none, none']
        · rw [here, here']
          simp only [retyped.ofDeclared_eq, means alike.ty]
  | enumeration owner =>
      simp only [valueMemberType]
      rcases rel_cases (retyped.lookupType? owner) with
        ⟨absent, absent'⟩ | ⟨type, type', known, known', same⟩
      · rw [absent, absent']
      · simp only [known, known', same.hasVariant]
  | _ => rfl

theorem alike (tools : Toolchain) : d.Alike tools d' where
  ident := retyped.identType_eq means
  signature := retyped.signature?_eq means tools
  selects e := by
    rcases rel_cases (retyped.staticType? e) with ⟨value, value'⟩ | ⟨type, type', static, static', same⟩
    · rw [value, value']
    · rw [static, static', Option.map_some, Option.map_some]
      exact congrArg some (funext fun name => (typeMemberType_eq same name).symm)
  values := retyped.valueMemberType_eq means

end

end Declaring.Retyped

end Rule

end RuleLint
