namespace RuleLint.Image

structure Annotation where
  name : String
  base : Option String
  args : List String
deriving DecidableEq, Repr, Inhabited

structure Field where
  name : String
  ty : String
  annotations : List Annotation
deriving DecidableEq, Repr, Inhabited

structure Param where
  name : String
  ty : String
deriving DecidableEq, Repr, Inhabited

structure Method where
  name : String
  params : List Param
  returns : String
deriving DecidableEq, Repr, Inhabited

inductive TypeKind
  | object
  | enumeration
deriving DecidableEq, Repr, Inhabited

namespace TypeKind

def all : List TypeKind := [object, enumeration]

def text : TypeKind → String
  | object => "class"
  | enumeration => "enum"

def ofText? : String → Option TypeKind
  | "class" => some object
  | "enum" => some enumeration
  | _ => none

end TypeKind

/-- A declared type. Its qualifier is the namespace it is declared in. -/
structure TypeDef where
  name : String
  qualifier : Option String
  kind : TypeKind
  fields : List Field
  methods : List Method
  variants : List String
deriving DecidableEq, Repr, Inhabited

namespace TypeDef

def fullName (t : TypeDef) : String :=
  match t.qualifier with
  | some qualifier => if qualifier = "" then t.name else qualifier ++ "." ++ t.name
  | none => t.name

def matchesName (t : TypeDef) (name : String) : Bool :=
  t.name = name || t.fullName = name

def isEnumeration (t : TypeDef) : Bool := t.kind = .enumeration

def field? (t : TypeDef) (name : String) : Option Field := t.fields.find? (·.name = name)

def method? (t : TypeDef) (name : String) : Option Method := t.methods.find? (·.name = name)

def hasVariant (t : TypeDef) (name : String) : Bool := t.variants.contains name

end TypeDef

structure Reference where
  name : String
  version : Option String
deriving DecidableEq, Repr, Inhabited

end RuleLint.Image

namespace RuleLint

structure Image where
  name : String
  version : Option String
  references : List Image.Reference
  types : List Image.TypeDef
deriving DecidableEq, Repr, Inhabited

namespace Image

def referencesModule (image : Image) (name : String) : Bool :=
  image.references.any (·.name = name)

def findType? (image : Image) (name : String) : Option TypeDef :=
  image.types.find? (·.matchesName name)

end Image

end RuleLint
