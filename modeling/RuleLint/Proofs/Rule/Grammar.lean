import RuleLint.Rule.Parser

namespace RuleLint.Rule

/-- How far expressions may be nested: the deepest level, and how many levels a call without
arguments takes up. -/
structure Nesting where
  limit : Nat
  emptyCall : Nat

/-- The nesting that `parse` allows: a call takes up a level also if nothing stands in it. -/
def Nesting.standard : Nesting := ⟨maxDepth, 1⟩

def Token.literal? : Token → Option Literal
  | number value => some (.number value)
  | string text => some (.string text)
  | bool value => some (.bool value)
  | null => some .null
  | _ => none

inductive Phrase
  | level (k : Nat) (e : Expr)
  | chain (k i : Nat) (e : Expr)
  | unary (e : Expr)
  | selection (i : Nat) (e : Expr)
  | primary (e : Expr)
  | arguments (args : List Expr)

/-- The tokens, at nesting level `n`, make up the phrase. -/
inductive Derives (nesting : Nesting) : Nat → List Placed → Phrase → Prop
  | operand {n k : Nat} {ts : List Placed} {e : Expr} (lower : k < BinOp.levels)
      (tighter : Derives nesting n ts (.level (k + 1) e)) : Derives nesting n ts (.chain k 0 e)
  | operator {n k i column : Nat} {ts ts' : List Placed} {op : BinOp} {left right : Expr}
      (before : Derives nesting n ts (.chain k i left)) (level : op.level = k)
      (fits : n + (i + 1) ≤ nesting.limit)
      (after : Derives nesting (n + (i + 1)) ts' (.level (k + 1) right)) :
      Derives nesting n (ts ++ ⟨.op op, column⟩ :: ts') (.chain k (i + 1) (.binary op left right))
  | chain {n k i : Nat} {ts : List Placed} {e : Expr}
      (operators : Derives nesting n ts (.chain k i e)) : Derives nesting n ts (.level k e)
  | unary {n : Nat} {ts : List Placed} {e : Expr} (operand : Derives nesting n ts (.unary e)) :
      Derives nesting n ts (.level BinOp.levels e)
  | sign {n column : Nat} {ts : List Placed} {token : Token} {op : UnaryOp} {e : Expr}
      (signs : token.unaryOp? = some op) (fits : n + 1 ≤ nesting.limit)
      (operand : Derives nesting (n + 1) ts (.unary e)) :
      Derives nesting n (⟨token, column⟩ :: ts) (.unary (.unary op e column))
  | selection {n i : Nat} {ts : List Placed} {e : Expr}
      (selected : Derives nesting n ts (.selection i e)) : Derives nesting n ts (.unary e)
  | primary {n : Nat} {ts : List Placed} {e : Expr} (first : Derives nesting n ts (.primary e)) :
      Derives nesting n ts (.selection 0 e)
  | member {n i column column' : Nat} {ts : List Placed} {name : String} {target : Expr}
      (before : Derives nesting n ts (.selection i target)) (fits : n + (i + 1) ≤ nesting.limit) :
      Derives nesting n (ts ++ [⟨.dot, column⟩, ⟨.ident name, column'⟩])
        (.selection (i + 1) (.member target name))
  | literal {n column : Nat} {token : Token} {value : Literal}
      (writes : token.literal? = some value) :
      Derives nesting n [⟨token, column⟩] (.primary (.literal value column))
  /-- A name. Nothing that stands after a name in an expression begins with a parenthesis. -/
  | ident {n column : Nat} {name : String} :
      Derives nesting n [⟨.ident name, column⟩] (.primary (.ident name column))
  | parens {n column column' : Nat} {ts : List Placed} {e : Expr} (fits : n + 1 ≤ nesting.limit)
      (inside : Derives nesting (n + 1) ts (.level 0 e)) :
      Derives nesting n (⟨.openParen, column⟩ :: (ts ++ [⟨.closeParen, column'⟩])) (.primary e)
  | emptyCall {n column column' column'' : Nat} {name : String}
      (fits : n + nesting.emptyCall ≤ nesting.limit) :
      Derives nesting n [⟨.ident name, column⟩, ⟨.openParen, column'⟩, ⟨.closeParen, column''⟩]
        (.primary (.call name [] column))
  | call {n column column' column'' : Nat} {ts : List Placed} {name : String} {args : List Expr}
      (fits : n + 1 ≤ nesting.limit) (inside : Derives nesting (n + 1) ts (.arguments args)) :
      Derives nesting n
        (⟨.ident name, column⟩ :: ⟨.openParen, column'⟩ :: (ts ++ [⟨.closeParen, column''⟩]))
        (.primary (.call name args column))
  | argument {n : Nat} {ts : List Placed} {e : Expr} (last : Derives nesting n ts (.level 0 e)) :
      Derives nesting n ts (.arguments [e])
  | arguments {n column : Nat} {ts ts' : List Placed} {e : Expr} {args : List Expr}
      (first : Derives nesting n ts (.level 0 e))
      (others : Derives nesting n ts' (.arguments args)) :
      Derives nesting n (ts ++ ⟨.comma, column⟩ :: ts') (.arguments (e :: args))

variable {nesting : Nesting} {n : Nat} {ts : List Placed}

theorem Derives.loosen {j k : Nat} {e : Expr} (level : Derives nesting n ts (.level k e))
    (looser : j ≤ k) (bound : k ≤ BinOp.levels) : Derives nesting n ts (.level j e) := by
  obtain ⟨i, rfl⟩ := Nat.exists_eq_add_of_le looser
  induction i with
  | zero => exact level
  | succ i ih =>
      have lower : j + i < BinOp.levels := by omega
      exact ih (.chain (.operand lower level)) (Nat.le_add_right j i) (Nat.le_of_lt lower)

theorem Derives.level_of_unary {k : Nat} {e : Expr} (operand : Derives nesting n ts (.unary e))
    (bound : k ≤ BinOp.levels) : Derives nesting n ts (.level k e) :=
  (Derives.unary operand).loosen bound (Nat.le_refl _)

theorem Derives.level_of_selection {i k : Nat} {e : Expr}
    (selected : Derives nesting n ts (.selection i e)) (bound : k ≤ BinOp.levels) :
    Derives nesting n ts (.level k e) :=
  (Derives.selection selected).level_of_unary bound

theorem Derives.level_of_primary {k : Nat} {e : Expr} (first : Derives nesting n ts (.primary e))
    (bound : k ≤ BinOp.levels) : Derives nesting n ts (.level k e) :=
  (Derives.primary first).level_of_selection bound

def Phrase.Starts (token : Token) : Phrase → Prop
  | selection _ _ | primary _ => token ≠ .closeParen ∧ token.unaryOp? = none
  | level _ _ | chain _ _ _ | unary _ | arguments _ => token ≠ .closeParen

theorem Token.ne_closeParen_of_unaryOp? {token : Token} {op : UnaryOp}
    (signs : token.unaryOp? = some op) : token ≠ .closeParen := by
  rintro rfl
  cases signs

theorem Token.starts_of_literal? {token : Token} {value : Literal}
    (writes : token.literal? = some value) : token ≠ .closeParen ∧ token.unaryOp? = none := by
  cases token with
  | number _ | string _ | bool _ | null => exact ⟨nofun, rfl⟩
  | _ => cases writes

theorem Derives.starts {phrase : Phrase}
    (derives : Derives nesting n ts phrase) :
    ∃ t rest, ts = t :: rest ∧ phrase.Starts t.token := by
  induction derives with
  | operand _ _ ih => exact ih
  | operator _ _ _ _ ih _ =>
      obtain ⟨t, rest, rfl, starts⟩ := ih
      exact ⟨t, _, rfl, starts⟩
  | chain _ ih => exact ih
  | unary _ ih => exact ih
  | sign signs _ _ _ => exact ⟨_, _, rfl, Token.ne_closeParen_of_unaryOp? signs⟩
  | selection _ ih =>
      obtain ⟨t, rest, rfl, starts⟩ := ih
      exact ⟨t, rest, rfl, starts.1⟩
  | primary _ ih => exact ih
  | member _ _ ih =>
      obtain ⟨t, rest, rfl, starts⟩ := ih
      exact ⟨t, _, rfl, starts⟩
  | literal writes => exact ⟨_, _, rfl, Token.starts_of_literal? writes⟩
  | ident => exact ⟨_, _, rfl, nofun, rfl⟩
  | parens => exact ⟨_, _, rfl, nofun, rfl⟩
  | emptyCall => exact ⟨_, _, rfl, nofun, rfl⟩
  | call => exact ⟨_, _, rfl, nofun, rfl⟩
  | argument _ ih => exact ih
  | arguments _ _ ih _ =>
      obtain ⟨t, rest, rfl, starts⟩ := ih
      exact ⟨t, _, rfl, starts⟩

end RuleLint.Rule
