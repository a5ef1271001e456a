import RuleLint.Decimal.Binary64
import RuleLint.Rule.Operator

namespace RuleLint.Rule

open Decimal (Binary64)

inductive Token
  | ident (name : String)
  | number (value : Binary64)
  | string (text : String)
  | bool (value : Bool)
  | null
  | op (op : BinOp)
  | not
  | openParen
  | closeParen
  | comma
  | dot
deriving DecidableEq, Repr

namespace Token

/-- The token as messages show it. A string stands in single quotes whichever it was written in. -/
def text : Token → String
  | ident name => name
  | number value => value.text
  | string text => "'" ++ text ++ "'"
  | bool true => "true"
  | bool false => "false"
  | null => "null"
  | op operator => operator.symbol
  | not => "!"
  | openParen => "("
  | closeParen => ")"
  | comma => ","
  | dot => "."

def foundText : Option Token → String
  | some token => token.text
  | none => "end of expression"

def ofWord (word : String) : Token :=
  if word = "true" then bool true
  else if word = "false" then bool false
  else if word = "null" then null
  else ident word

def unaryOp? : Token → Option UnaryOp
  | not => some .not
  | op .sub => some .neg
  | _ => none

end Token

structure Placed where
  token : Token
  column : Nat
deriving DecidableEq, Repr

end RuleLint.Rule
