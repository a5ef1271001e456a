import RuleLint.Module.Basic
import RuleLint.Rule.Ty
import RuleLint.Text.Basic

namespace RuleLint.Rule

open Image (TypeDef Field Method)

structure Declaring where
  module : Module
  type : TypeDef
deriving Repr

inductive Member
  | field (field : Field)
  | method (method : Method)
deriving Repr

namespace Declaring

/-- The member of that name. A field hides a method. -/
def member? (d : Declaring) (name : String) : Option Member :=
  ((d.type.field? name).map .field).or ((d.type.method? name).map .method)

def lookupType? (d : Declaring) (name : String) : Option TypeDef := d.module.findType? name

end Declaring

namespace Ty

def builtin? : String → Option Ty
  | "bool" | "boolean" => some bool
  | "byte" | "sbyte" | "short" | "ushort" | "int" | "uint" | "long" | "ulong" | "float" | "double"
  | "decimal" | "int16" | "int32" | "int64" | "single" | "i8" | "i16" | "i32" | "i64" | "u8"
  | "u16" | "u32" | "u64" | "f32" | "f64" | "number" => some number
  | "string" | "char" => some string
  | "datetime" | "datetimeoffset" | "date" => some date
  | "timespan" | "duration" => some timespan
  | _ => none

def bareName (name : String) : String :=
  String.ofList (Text.dropEndWhile (· = '?') (Text.trimBlanks name).toList)

/-- The type that a declared type name means. Upper and lower case of the letters `A` to `Z` are
the same in the names of the language's own types. -/
def ofDeclared (d : Declaring) (name : String) : Ty :=
  let name := bareName name
  match builtin? (name.map Char.toLower) with
  | some ty => ty
  | none =>
    match d.lookupType? name with
    | some type => if type.isEnumeration then enumeration type.name else object type.name
    | none => unknown

end Ty

end RuleLint.Rule
