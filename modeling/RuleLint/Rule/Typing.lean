import RuleLint.Rule.Declaring
import RuleLint.Rule.Parser
import RuleLint.Rule.Toolchain

namespace RuleLint.Rule

open Image (TypeDef)

def UnaryOp.result? : UnaryOp → Ty → Option Ty
  | not, ty => if ty.isBoolish then some .bool else none
  | neg, .number => some .number
  | neg, .timespan => some .timespan
  | neg, .unknown => some .unknown
  | neg, _ => none

def Ty.sum? : Ty → Ty → Option Ty
  | unknown, _ => some unknown
  | _, unknown => some unknown
  | string, _ => some string
  | _, string => some string
  | number, number => some number
  | date, timespan => some date
  | timespan, date => some date
  | timespan, timespan => some timespan
  | _, _ => none

def Ty.difference? : Ty → Ty → Option Ty
  | unknown, _ => some unknown
  | _, unknown => some unknown
  | number, number => some number
  | date, timespan => some date
  | date, date => some timespan
  | timespan, timespan => some timespan
  | _, _ => none

def Ty.product? : Ty → Ty → Option Ty
  | number, number => some number
  | number, unknown => some unknown
  | unknown, number => some unknown
  | unknown, unknown => some unknown
  | _, _ => none

def BinOp.result? (op : BinOp) (left right : Ty) : Option Ty :=
  match op with
  | or | and => if left.isBoolish && right.isBoolish then some .bool else none
  | eq | ne => if left.accepts right then some .bool else none
  | lt | le | gt | ge => if left.ordersWith right then some .bool else none
  | add => left.sum? right
  | sub => left.difference? right
  | mul | div | mod => left.product? right

def signature? (d : Declaring) (tools : Toolchain) (name : String) : Option (List Ty × Ty) :=
  match d.type.method? name with
  | some m => some (m.params.map fun p => Ty.ofDeclared d p.ty, Ty.ofDeclared d m.returns)
  | none => (tools.get? name).map fun f => (f.params, f.returns)

/-- The type that a dotted path names, unless its first name is a member of the declaring type. -/
def staticType? (d : Declaring) (e : Expr) : Option TypeDef := do
  let path ← e.path?
  match d.member? (← path.head?) with
  | some _ => none
  | none => d.lookupType? (".".intercalate path)

def identType (d : Declaring) (name : String) : Except Fault Ty :=
  match d.member? name with
  | some (.field f) => .ok (.ofDeclared d f.ty)
  | some (.method _) => .error (.methodNotCalled name)
  | none =>
    if (d.lookupType? name).isSome then .error (.typeAsValue name)
    else .error (.unknownIdentifier name)

def typeMemberType (type : TypeDef) (name : String) : Except Fault Ty :=
  if type.isEnumeration && type.hasVariant name then .ok (.enumeration type.name)
  else .error (.noTypeMember (if type.isEnumeration then .enumeration else .type) type.name name)

/-- The type of `name` selected from a value of type `ty`. A field that is written as its
enumeration is may also stand for it; `written` is how the value is written, if it is a path. -/
def valueMemberType (d : Declaring) (written : Option String) (ty : Ty) (name : String) :
    Except Fault Ty :=
  match ty with
  | .object owner =>
    match d.lookupType? owner >>= (·.field? name) with
    | some f => .ok (.ofDeclared d f.ty)
    | none => .error (.noValueMember owner name)
  | .enumeration owner =>
    if written = some owner then
      match d.lookupType? owner with
      | some type =>
        if type.hasVariant name then .ok (.enumeration owner)
        else .error (.noTypeMember .enumeration owner name)
      | none => .error (.noTypeMember .enumeration owner name)
    else .error (.noValueMember owner name)
  | .string => if name = "Length" then .ok .number else .error (.noValueMember ty.text name)
  | .unknown => .ok .unknown
  | ty => .error (.noValueMember ty.text name)

def Literal.type : Literal → Ty
  | bool _ => .bool
  | number _ => .number
  | string _ => .string
  | null => .null

def faultAt {α : Type} (column : Nat) : Except Fault α → Except Diagnostic α
  | .ok a => .ok a
  | .error fault => .error ⟨fault, column⟩

mutual

def infer (d : Declaring) (tools : Toolchain) : Expr → Except Diagnostic Ty
  | .literal value _ => .ok value.type
  | .ident name column => faultAt column (identType d name)
  | .member target name =>
    match staticType? d target with
    | some type => faultAt target.column (typeMemberType type name)
    | none => do
      let ty ← infer d tools target
      faultAt target.column (valueMemberType d target.dotted? ty name)
  | .call name args column =>
    match signature? d tools name with
    | none => .error ⟨.unknownFunction name, column⟩
    | some (params, returns) => do
      if args.length = params.length then
        checkArgs d tools name 1 params args
        return returns
      else .error ⟨.wrongArity name params.length args.length, column⟩
  | .unary op operand column => do
    let ty ← infer d tools operand
    match op.result? ty with
    | some result => return result
    | none => .error ⟨.wrongOperand op ty, column⟩
  | .binary op left right => do
    let l ← infer d tools left
    let r ← infer d tools right
    match op.result? l r with
    | some result => return result
    | none => .error ⟨.wrongOperands op l r, left.column⟩

def checkArgs (d : Declaring) (tools : Toolchain) (name : String) (index : Nat) :
    List Ty → List Expr → Except Diagnostic Unit
  | expected :: params, arg :: args => do
    let actual ← infer d tools arg
    if expected.accepts actual then checkArgs d tools name (index + 1) params args
    else .error ⟨.wrongArgument index name expected actual, arg.column⟩
  | _, _ => .ok ()

end

def check (d : Declaring) (tools : Toolchain) (e : Expr) : Except Diagnostic Unit := do
  let ty ← infer d tools e
  if ty.isBoolish then return ()
  else .error ⟨.notCondition ty, e.column⟩

def compile (d : Declaring) (tools : Toolchain) (expression : String) : Except Diagnostic Unit := do
  check d tools (← parse expression)

end RuleLint.Rule
