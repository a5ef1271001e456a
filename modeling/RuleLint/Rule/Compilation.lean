import RuleLint.Rule.Subsystem

namespace RuleLint.Rule

open Image (TypeDef Field Annotation)

structure CompilationError where
  typeName : String
  field : String
  annotation : String
  expression : String
  error : RuleError
deriving DecidableEq, Repr

def CompilationError.text (e : CompilationError) : String :=
  e.typeName ++ "." ++ e.field ++ " [" ++ e.annotation ++ "(\"" ++ e.expression ++ "\")]: " ++
    e.error.message

structure RuleSite where
  typeName : String
  field : String
  annotation : String
  expression : Option String
deriving DecidableEq, Repr

structure Unclassified where
  typeName : String
  field : String
  annotation : String
  reason : String
deriving DecidableEq, Repr

def Unclassified.message (u : Unclassified) : String :=
  "unclassified failure compiling " ++ u.annotation ++ " on " ++ u.typeName ++ "." ++ u.field ++
    ": " ++ u.reason

structure Candidate where
  type : TypeDef
  field : Field
  annotation : Annotation
deriving DecidableEq, Repr

def candidates (image : Image) (marker : String) : List Candidate :=
  image.types.flatMap fun type =>
    type.fields.flatMap fun field =>
      (field.annotations.filter (·.base = some marker)).map fun annotation =>
        ⟨type, field, annotation⟩

def isRelevant (s : Subsystem) (image : Image) : Bool := image.referencesModule s.moduleName

def Candidate.site (c : Candidate) : RuleSite where
  typeName := c.type.name
  field := c.field.name
  annotation := c.annotation.name
  expression := c.annotation.args.head?

def ruleSites (s : Subsystem) (m : Module) : List RuleSite :=
  if isRelevant s m.image then (candidates m.image s.marker).map Candidate.site else []

def compileCandidate (s : Subsystem) (m : Module) (c : Candidate) :
    Except Unclassified (Option CompilationError) :=
  let unclassified (reason : String) : Unclassified :=
    ⟨c.type.name, c.field.name, c.annotation.name, reason⟩
  match s.bind c.annotation with
  | none =>
    .error (unclassified ("annotation '" ++ c.annotation.name ++ "' derives from '" ++ s.marker ++
      "' but exposes no compile capability"))
  | some bound =>
    match bound.compile ⟨m, c.type⟩ with
    | .ok () => .ok none
    | .error (.rule error) =>
      .ok (some ⟨c.type.name, c.field.name, bound.name, bound.expression, error⟩)
    | .error (.unclassified reason) => .error (unclassified reason)

def compileModule (s : Subsystem) (m : Module) : Except Unclassified (List CompilationError) :=
  if isRelevant s m.image then do
    return (← (candidates m.image s.marker).mapM (compileCandidate s m)).filterMap id
  else .ok []

end RuleLint.Rule
