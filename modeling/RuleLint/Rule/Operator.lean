namespace RuleLint.Rule

inductive BinOp
  | or | and
  | eq | ne
  | lt | le | gt | ge
  | add | sub
  | mul | div | mod
deriving DecidableEq, Repr

namespace BinOp

def levels : Nat := 6

def level : BinOp → Nat
  | or => 0
  | and => 1
  | eq | ne => 2
  | lt | le | gt | ge => 3
  | add | sub => 4
  | mul | div | mod => 5

def symbol : BinOp → String
  | or => "||"
  | and => "&&"
  | eq => "=="
  | ne => "!="
  | lt => "<"
  | le => "<="
  | gt => ">"
  | ge => ">="
  | add => "+"
  | sub => "-"
  | mul => "*"
  | div => "/"
  | mod => "%"

theorem level_lt_levels (op : BinOp) : op.level < levels := by
  cases op <;> decide

end BinOp

inductive UnaryOp
  | not
  | neg
deriving DecidableEq, Repr

def UnaryOp.symbol : UnaryOp → String
  | not => "!"
  | neg => "-"

end RuleLint.Rule
