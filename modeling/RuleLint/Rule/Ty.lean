namespace RuleLint.Rule

inductive Ty
  | bool
  | number
  | string
  | date
  | timespan
  | enumeration (name : String)
  | object (name : String)
  | null
  /-- The type of what the module graph does not describe. Checks that involve it are skipped. -/
  | unknown
deriving DecidableEq, Repr, Inhabited

namespace Ty

def text : Ty → String
  | bool => "bool"
  | number => "number"
  | string => "string"
  | date => "date"
  | timespan => "timespan"
  | enumeration name => name
  | object name => name
  | null => "null"
  | unknown => "unknown"

def isBoolish : Ty → Bool
  | bool | null | unknown => true
  | _ => false

/-- Whether a value of type `other` may be compared for equality with one of type `ty`, or passed
where `ty` is expected. -/
def accepts (ty other : Ty) : Bool :=
  ty = unknown || other = unknown || ty = null || other = null || ty = other

def ordersWith (ty other : Ty) : Bool :=
  match ty, other with
  | unknown, _ => true
  | _, unknown => true
  | number, number => true
  | string, string => true
  | date, date => true
  | timespan, timespan => true
  | enumeration a, enumeration b => a = b
  | _, _ => false

end Ty

end RuleLint.Rule
