import RuleLint.Rule.Operator
import RuleLint.Decimal.Binary64

namespace RuleLint.Rule

open Decimal (Binary64)

inductive Literal
  | bool (value : Bool)
  | number (value : Binary64)
  | string (text : String)
  | null
deriving DecidableEq, Repr

inductive Expr
  | literal (value : Literal) (column : Nat)
  | ident (name : String) (column : Nat)
  | member (target : Expr) (name : String)
  | call (name : String) (args : List Expr) (column : Nat)
  | unary (op : UnaryOp) (operand : Expr) (column : Nat)
  | binary (op : BinOp) (left right : Expr)
deriving Repr, Inhabited

namespace Expr

def column : Expr → Nat
  | literal _ column => column
  | ident _ column => column
  | member target _ => target.column
  | call _ _ column => column
  | unary _ _ column => column
  | binary _ left _ => left.column

def path? : Expr → Option (List String)
  | ident name _ => some [name]
  | member target name => do return (← target.path?) ++ [name]
  | _ => none

def dotted? (e : Expr) : Option String :=
  e.path?.map (".".intercalate ·)

end Expr

end RuleLint.Rule
