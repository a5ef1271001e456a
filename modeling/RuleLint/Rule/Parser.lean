import RuleLint.Rule.Expr
import RuleLint.Rule.Lexer

namespace RuleLint.Rule

def maxDepth : Nat := 128

abbrev Reading (ts : List Placed) (α : Type) : Type :=
  { read : α × List Placed // read.2.length < ts.length }

/-- What an expression became with what was read from the front of `ts`, which may be nothing. -/
abbrev Continuation (ts : List Placed) (α : Type) : Type :=
  { read : α × List Placed // read.2.length ≤ ts.length }

def foundToken (ts : List Placed) : Option Token := ts.head?.map Placed.token

def foundColumn (stop : Nat) : List Placed → Nat
  | [] => stop
  | t :: _ => t.column

mutual

/-- An expression of binding level `k`: operands of the level above with operators of level `k`
between them, grouped from the left. -/
def readLevel (stop k depth : Nat) (ts : List Placed) : Except Diagnostic (Reading ts Expr) :=
  if k < BinOp.levels then do
    let ⟨(first, rest), shorter⟩ ← readLevel stop (k + 1) depth ts
    let ⟨(e, rest'), le⟩ ← readChain stop k depth first rest
    return ⟨(e, rest'), Nat.lt_of_le_of_lt le shorter⟩
  else readUnary stop depth ts
termination_by (ts.length, 3 + (BinOp.levels - k))

def readChain (stop k depth : Nat) (left : Expr) (ts : List Placed) :
    Except Diagnostic (Continuation ts Expr) :=
  match ts with
  | ⟨.op op, column⟩ :: rest =>
    if op.level = k then
      match depth with
      | 0 => .error ⟨.tooDeep, column⟩
      | depth + 1 => do
        let ⟨(right, rest₁), shorter₁⟩ ← readLevel stop (k + 1) depth rest
        have : rest₁.length < rest.length := shorter₁
        let ⟨(e, rest₂), le₂⟩ ← readChain stop k depth (.binary op left right) rest₁
        return ⟨(e, rest₂), by
          simp only [List.length_cons] at le₂ ⊢
          omega⟩
    else .ok ⟨(left, ⟨.op op, column⟩ :: rest), Nat.le_refl _⟩
  | ts => .ok ⟨(left, ts), Nat.le_refl _⟩
termination_by (ts.length, 0)

def readUnary (stop depth : Nat) (ts : List Placed) : Except Diagnostic (Reading ts Expr) :=
  match ts with
  | [] => .error ⟨.unexpected none, stop⟩
  | ⟨token, column⟩ :: rest =>
    match token.unaryOp? with
    | some op =>
      match depth with
      | 0 => .error ⟨.tooDeep, column⟩
      | depth + 1 => do
        let ⟨(operand, rest'), shorter⟩ ← readUnary stop depth rest
        return ⟨(.unary op operand column, rest'), Nat.lt_succ_of_lt shorter⟩
    | none => readSelection stop depth (⟨token, column⟩ :: rest)
termination_by (ts.length, 2)

def readSelection (stop depth : Nat) (ts : List Placed) : Except Diagnostic (Reading ts Expr) := do
  let ⟨(first, rest), shorter⟩ ← readPrimary stop depth ts
  let ⟨(e, rest'), le⟩ ← readMembers stop depth first rest
  return ⟨(e, rest'), Nat.lt_of_le_of_lt le shorter⟩
termination_by (ts.length, 1)

/-- The members selected from `target`. What is selected cannot be called. -/
def readMembers (stop depth : Nat) (target : Expr) (ts : List Placed) :
    Except Diagnostic (Continuation ts Expr) :=
  match ts with
  | ⟨.dot, column⟩ :: rest =>
    match depth with
    | 0 => .error ⟨.tooDeep, column⟩
    | depth + 1 =>
      match rest with
      | ⟨.ident name, _⟩ :: rest₁ => do
        let ⟨(e, rest₂), le₂⟩ ← readMembers stop depth (.member target name) rest₁
        return ⟨(e, rest₂), by
          simp only [List.length_cons] at le₂ ⊢
          omega⟩
      | rest => .error ⟨.missingMember (foundToken rest), foundColumn stop rest⟩
  | ⟨.openParen, column⟩ :: _ => .error ⟨.notInvocable, column⟩
  | ts => .ok ⟨(target, ts), Nat.le_refl _⟩
termination_by (ts.length, 0)

def readPrimary (stop depth : Nat) (ts : List Placed) : Except Diagnostic (Reading ts Expr) :=
  match ts with
  | ⟨.number value, column⟩ :: rest =>
    .ok ⟨(.literal (.number value) column, rest), Nat.lt_succ_self _⟩
  | ⟨.string text, column⟩ :: rest =>
    .ok ⟨(.literal (.string text) column, rest), Nat.lt_succ_self _⟩
  | ⟨.bool value, column⟩ :: rest =>
    .ok ⟨(.literal (.bool value) column, rest), Nat.lt_succ_self _⟩
  | ⟨.null, column⟩ :: rest => .ok ⟨(.literal .null column, rest), Nat.lt_succ_self _⟩
  | ⟨.openParen, column⟩ :: rest =>
    match depth with
    | 0 => .error ⟨.tooDeep, column⟩
    | depth + 1 => do
      let ⟨(e, rest₁), shorter⟩ ← readLevel stop 0 depth rest
      match h : rest₁ with
      | ⟨.closeParen, _⟩ :: rest₂ =>
        return ⟨(e, rest₂), by
          simp only [h, List.length_cons] at shorter ⊢
          omega⟩
      | rest₁ => .error ⟨.missingParen (foundToken rest₁), foundColumn stop rest₁⟩
  | ⟨.ident name, column⟩ :: ⟨.openParen, _⟩ :: rest =>
    match depth with
    | 0 => .error ⟨.tooDeep, column⟩
    | depth + 1 =>
      match rest with
      | ⟨.closeParen, _⟩ :: rest' => .ok ⟨(.call name [] column, rest'), by
          simp only [List.length_cons]
          omega⟩
      | rest => do
        let ⟨(args, rest'), shorter⟩ ← readArguments stop depth rest
        return ⟨(.call name args column, rest'), by
          simp only [List.length_cons] at shorter ⊢
          omega⟩
  | ⟨.ident name, column⟩ :: rest => .ok ⟨(.ident name column, rest), Nat.lt_succ_self _⟩
  | ts => .error ⟨.unexpected (foundToken ts), foundColumn stop ts⟩
termination_by (ts.length, 0)

def readArguments (stop depth : Nat) (ts : List Placed) :
    Except Diagnostic (Reading ts (List Expr)) := do
  let ⟨(arg, rest), shorter⟩ ← readLevel stop 0 depth ts
  match h : rest with
  | ⟨.comma, _⟩ :: rest₁ =>
    have : rest₁.length < ts.length := by
      simp only [h, List.length_cons] at shorter
      omega
    let ⟨(args, rest₂), shorter₂⟩ ← readArguments stop depth rest₁
    return ⟨(arg :: args, rest₂), Nat.lt_trans shorter₂ this⟩
  | ⟨.closeParen, _⟩ :: rest₁ =>
    return ⟨([arg], rest₁), by
      simp only [h, List.length_cons] at shorter ⊢
      omega⟩
  | rest => .error ⟨.argumentEnd (foundToken rest), foundColumn stop rest⟩
termination_by (ts.length, 4 + BinOp.levels)

end

def Lexed.parse (lexed : Lexed) : Except Diagnostic Expr := do
  let ⟨(e, rest), _⟩ ← readLevel lexed.stop 0 maxDepth lexed.tokens
  match rest with
  | [] => return e
  | t :: _ => .error ⟨.trailing t.token, t.column⟩

def parse (input : String) : Except Diagnostic Expr :=
  if input.toList.all Text.isBlank then .error ⟨.emptyExpression, 1⟩
  else do (← tokenize input).parse

end RuleLint.Rule
