import RuleLint.Text.Json
import RuleLint.Validator

namespace RuleLint

open File (Path FileSystem)
open Rule (CompilationError RuleSite FaultKind)
open Text (Json)

structure Report where
  path : Path
  checkedAt : String
  outcome : Except String (List CompilationError)

namespace Report

inductive Status
  | clean
  | ruleErrors
  | failed
deriving DecidableEq, Repr

def status (r : Report) : Status :=
  match r.outcome with
  | .ok [] => .clean
  | .ok _ => .ruleErrors
  | .error _ => .failed

def Status.text : Status → String
  | clean => "clean"
  | ruleErrors => "rule_errors"
  | failed => "failed"

def Status.exitCode : Status → Nat
  | clean => 0
  | ruleErrors => 1
  | failed => 2

def run (fs : FileSystem) (checkedAt : String) (path : Path) (v : Validator) : Report × Validator :=
  let (result, v) := v.check fs path
  (⟨path, checkedAt, result.mapError ValidateError.message⟩, v)

def text (r : Report) : String :=
  match r.outcome with
  | .ok [] => r.path.text ++ ": all rules compiled\n"
  | .ok errors =>
    String.join (errors.map fun e => "error: " ++ e.text ++ "\n") ++ r.path.text ++ ": " ++
      toString errors.length ++ (if errors.length = 1 then " rule" else " rules") ++
      " failed to compile\n"
  | .error failure => r.path.text ++ ": validation failed\n" ++ failure ++ "\n"

def kindLabel : FaultKind → String
  | .malformed => "syntax"
  | .unresolved => "unresolved_symbol"
  | .arity => "arity"
  | .mismatch => "type_mismatch"
  | .other => "other"

def errorJson (e : CompilationError) : Json :=
  let column : List (String × Json) :=
    match e.error.column with
    | some column => [("column", .number column)]
    | none => []
  .object ([("type_name", .string e.typeName), ("field", .string e.field),
    ("attribute", .string e.annotation), ("expression", .string e.expression),
    ("kind", .string (kindLabel e.error.kind))] ++ column ++
    [("message", .string e.error.message)])

def json (r : Report) : Json :=
  let (errors, failure) : List CompilationError × List (String × Json) :=
    match r.outcome with
    | .ok errors => (errors, [])
    | .error failure => ([], [("failure", .string failure)])
  .object ([("module", .string r.path.text), ("checked_at", .string r.checkedAt),
    ("status", .string r.status.text), ("errors", .array (errors.map errorJson))] ++ failure)

def print (r : Report) (asJson : Bool) : String :=
  if asJson then r.json.pretty ++ "\n" else r.text

end Report

def sitesText (sites : List RuleSite) : String :=
  String.join (sites.map fun site =>
    site.typeName ++ "." ++ site.field ++ "\t" ++ site.annotation ++ "(\"" ++
      site.expression.getD "" ++ "\")\n") ++
  toString sites.length ++ " rule annotation(s)\n"

def sitesJson (sites : List RuleSite) : Json :=
  .array (sites.map fun site =>
    .object [("type_name", .string site.typeName), ("field", .string site.field),
      ("attribute", .string site.annotation),
      ("expression", (site.expression.map Json.string).getD .null)])

end RuleLint
