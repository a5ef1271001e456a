import RuleLint.Rule.Typing

namespace RuleLint.Rule

inductive AttributeFault
  | rule (error : RuleError)
  | unclassified (reason : String)
deriving DecidableEq, Repr

structure Attribute where
  name : String
  expression : String
  compile : Declaring → Except AttributeFault Unit

structure Subsystem where
  moduleName : String
  marker : String
  bind : Image.Annotation → Option Attribute

inductive RuleKind
  | assertThat
  | requiredIf
deriving DecidableEq, Repr

def RuleKind.ofName? : String → Option RuleKind
  | "AssertThat" | "AssertThatAttribute" => some assertThat
  | "RequiredIf" | "RequiredIfAttribute" => some requiredIf
  | _ => none

namespace Expressive

def moduleName : String := "Expressive"

def marker : String := "ExpressiveAttribute"

def compileAnnotation (tools : Toolchain) (a : Image.Annotation) (d : Declaring) :
    Except AttributeFault Unit :=
  match a.args.head? with
  | none => .error (.unclassified ("'" ++ a.name ++ "' annotation carries no expression argument"))
  | some expression =>
    match Rule.compile d tools expression with
    | .ok () => .ok ()
    | .error diagnostic => .error (.rule diagnostic.toRuleError)

def bind (tools : Toolchain) (a : Image.Annotation) : Option Attribute :=
  (RuleKind.ofName? a.name).map fun _ =>
    { name := a.name
      expression := a.args.head?.getD ""
      compile := compileAnnotation tools a }

end Expressive

def expressive (tools : Toolchain) : Subsystem where
  moduleName := Expressive.moduleName
  marker := Expressive.marker
  bind := Expressive.bind tools

end RuleLint.Rule
