import RuleLint.Proofs.Rule.Columns

namespace RuleLint.Rule

def Placed.relocate (f : Nat → Nat) (t : Placed) : Placed := ⟨t.token, f t.column⟩

def Diagnostic.relocate (f : Nat → Nat) (d : Diagnostic) : Diagnostic := ⟨d.fault, f d.column⟩

def Lexed.relocate (f : Nat → Nat) (lexed : Lexed) : Lexed :=
  ⟨lexed.tokens.map (Placed.relocate f), f lexed.stop⟩

mutual

def Expr.relocate (f : Nat → Nat) : Expr → Expr
  | .literal value column => .literal value (f column)
  | .ident name column => .ident name (f column)
  | .member target name => .member (target.relocate f) name
  | .call name args column => .call name (Expr.relocateArguments f args) (f column)
  | .unary op operand column => .unary op (operand.relocate f) (f column)
  | .binary op left right => .binary op (left.relocate f) (right.relocate f)

def Expr.relocateArguments (f : Nat → Nat) : List Expr → List Expr
  | [] => []
  | arg :: args => arg.relocate f :: Expr.relocateArguments f args

end

variable {α β : Type} {f : Nat → Nat} {p p' : α × List Placed → Prop}
  {q q' : β × List Placed → Prop}

/-- The second reader gives what the first one does, moved, and leaves the same tokens. -/
def Relocates (f : Nat → Nat) (move : α → α) :
    Except Diagnostic { read : α × List Placed // p read } →
      Except Diagnostic { read : α × List Placed // p' read } → Prop
  | .ok ⟨(a, rest), _⟩, .ok ⟨(a', rest'), _⟩ =>
    a' = move a ∧ rest' = rest.map (Placed.relocate f)
  | .error d, .error d' => d' = d.relocate f
  | _, _ => False

theorem Relocates.bind {move : α → α} {move' : β → β}
    {x : Except Diagnostic { read : α × List Placed // p read }}
    {x' : Except Diagnostic { read : α × List Placed // p' read }}
    {g : { read : α × List Placed // p read } →
      Except Diagnostic { read : β × List Placed // q read }}
    {g' : { read : α × List Placed // p' read } →
      Except Diagnostic { read : β × List Placed // q' read }}
    (first : Relocates f move x x')
    (next : ∀ a rest fits fits', Relocates f move' (g ⟨(a, rest), fits⟩)
      (g' ⟨(move a, rest.map (Placed.relocate f)), fits'⟩)) :
    Relocates f move' (x >>= g) (x' >>= g') := by
  cases x with
  | error d =>
      cases x' with
      | error d' => exact first
      | ok read' => exact first.elim
  | ok read =>
      cases x' with
      | error d' => exact first.elim
      | ok read' =>
          obtain ⟨⟨a, rest⟩, fits⟩ := read
          obtain ⟨⟨a', rest'⟩, fits'⟩ := read'
          obtain ⟨rfl, rfl⟩ := first
          exact next a rest fits fits'

mutual

theorem readLevel_relocates (f : Nat → Nat) (stop k depth : Nat) (ts : List Placed) :
    Relocates f (Expr.relocate f) (readLevel stop k depth ts)
      (readLevel (f stop) k depth (ts.map (Placed.relocate f))) := by
  rw [readLevel.eq_def stop, readLevel.eq_def (f stop)]
  split
  · refine (readLevel_relocates f stop (k + 1) depth ts).bind fun first rest shorter _ => ?_
    have : rest.length < ts.length := shorter
    exact (readChain_relocates f stop k depth first rest).bind fun _ _ _ _ => ⟨rfl, rfl⟩
  · exact readUnary_relocates f stop depth ts
termination_by (ts.length, 3 + (BinOp.levels - k))

theorem readChain_relocates (f : Nat → Nat) (stop k depth : Nat) (left : Expr) (ts : List Placed) :
    Relocates f (Expr.relocate f) (readChain stop k depth left ts)
      (readChain (f stop) k depth (left.relocate f) (ts.map (Placed.relocate f))) := by
  match ts with
  | [] =>
      rw [List.map_nil, readChain, readChain]
      · exact ⟨rfl, rfl⟩
      · nofun
      · nofun
  | ⟨token, column⟩ :: rest =>
      rw [List.map_cons, Placed.relocate, readChain.eq_def stop, readChain.eq_def (f stop)]
      cases token with
      | op op =>
          dsimp only
          split
          · cases depth with
            | zero => rfl
            | succ depth =>
                refine (readLevel_relocates f stop (k + 1) depth rest).bind
                  fun right rest₁ shorter _ => ?_
                have : rest₁.length < rest.length := shorter
                exact (readChain_relocates f stop k depth (.binary op left right) rest₁).bind
                  fun _ _ _ _ => ⟨rfl, rfl⟩
          · exact ⟨rfl, rfl⟩
      | ident | number | string | bool | null | not | openParen | closeParen | comma | dot =>
          exact ⟨rfl, rfl⟩
termination_by (ts.length, 0)

theorem readUnary_relocates (f : Nat → Nat) (stop depth : Nat) (ts : List Placed) :
    Relocates f (Expr.relocate f) (readUnary stop depth ts)
      (readUnary (f stop) depth (ts.map (Placed.relocate f))) := by
  match ts with
  | [] =>
      rw [List.map_nil, readUnary, readUnary]
      rfl
  | ⟨token, column⟩ :: rest =>
      rw [List.map_cons, Placed.relocate, readUnary, readUnary]
      cases token.unaryOp? with
      | none => exact readSelection_relocates f stop depth (⟨token, column⟩ :: rest)
      | some op =>
          cases depth with
          | zero => rfl
          | succ depth =>
              exact (readUnary_relocates f stop depth rest).bind fun _ _ _ _ => ⟨rfl, rfl⟩
termination_by (ts.length, 2)

theorem readSelection_relocates (f : Nat → Nat) (stop depth : Nat) (ts : List Placed) :
    Relocates f (Expr.relocate f) (readSelection stop depth ts)
      (readSelection (f stop) depth (ts.map (Placed.relocate f))) := by
  rw [readSelection, readSelection]
  refine (readPrimary_relocates f stop depth ts).bind fun first rest shorter _ => ?_
  have : rest.length < ts.length := shorter
  exact (readMembers_relocates f stop depth first rest).bind fun _ _ _ _ => ⟨rfl, rfl⟩
termination_by (ts.length, 1)

theorem readMembers_relocates (f : Nat → Nat) (stop depth : Nat) (target : Expr)
    (ts : List Placed) :
    Relocates f (Expr.relocate f) (readMembers stop depth target ts)
      (readMembers (f stop) depth (target.relocate f) (ts.map (Placed.relocate f))) := by
  match ts with
  | [] =>
      rw [List.map_nil, readMembers, readMembers]
      · exact ⟨rfl, rfl⟩
      all_goals nofun
  | ⟨token, column⟩ :: rest =>
      rw [List.map_cons, Placed.relocate, readMembers.eq_def stop, readMembers.eq_def (f stop)]
      cases token with
      | dot =>
          cases depth with
          | zero => rfl
          | succ depth =>
              match rest with
              | [] => rfl
              | ⟨token, column'⟩ :: rest₁ =>
                  cases token with
                  | ident name =>
                      exact (readMembers_relocates f stop depth (.member target name) rest₁).bind
                        fun _ _ _ _ => ⟨rfl, rfl⟩
                  | number | string | bool | null | op | not | openParen | closeParen | comma
                  | dot => rfl
      | openParen => rfl
      | ident | number | string | bool | null | op | not | closeParen | comma => exact ⟨rfl, rfl⟩
termination_by (ts.length, 0)

theorem readPrimary_relocates (f : Nat → Nat) (stop depth : Nat) (ts : List Placed) :
    Relocates f (Expr.relocate f) (readPrimary stop depth ts)
      (readPrimary (f stop) depth (ts.map (Placed.relocate f))) := by
  match ts with
  | [] =>
      rw [List.map_nil, readPrimary.eq_def stop, readPrimary.eq_def (f stop)]
      rfl
  | ⟨token, column⟩ :: rest =>
      rw [List.map_cons, Placed.relocate, readPrimary.eq_def stop, readPrimary.eq_def (f stop)]
      cases token with
      | number | string | bool | null => exact ⟨rfl, rfl⟩
      | openParen =>
          cases depth with
          | zero => rfl
          | succ depth =>
              refine (readLevel_relocates f stop 0 depth rest).bind fun e rest₁ shorter _ => ?_
              match rest₁ with
              | [] => rfl
              | ⟨token, column⟩ :: rest₂ =>
                  cases token with
                  | closeParen => exact ⟨rfl, rfl⟩
                  | ident | number | string | bool | null | op | not | openParen | comma | dot =>
                      rfl
      | ident name =>
          match rest with
          | [] => exact ⟨rfl, rfl⟩
          | ⟨token, column'⟩ :: rest₁ =>
              cases token with
              | openParen =>
                  cases depth with
                  | zero => rfl
                  | succ depth =>
                      have inside := readArguments_relocates f stop depth rest₁
                      match rest₁ with
                      | [] => exact inside.bind fun _ _ _ _ => ⟨rfl, rfl⟩
                      | ⟨token, column''⟩ :: rest₂ =>
                          cases token with
                          | closeParen => exact ⟨rfl, rfl⟩
                          | ident | number | string | bool | null | op | not | openParen | comma
                          | dot => exact inside.bind fun _ _ _ _ => ⟨rfl, rfl⟩
              | ident | number | string | bool | null | op | not | closeParen | comma | dot =>
                  exact ⟨rfl, rfl⟩
      | op | not | closeParen | comma | dot => rfl
termination_by (ts.length, 0)

theorem readArguments_relocates (f : Nat → Nat) (stop depth : Nat) (ts : List Placed) :
    Relocates f (Expr.relocateArguments f) (readArguments stop depth ts)
      (readArguments (f stop) depth (ts.map (Placed.relocate f))) := by
  rw [readArguments.eq_def stop, readArguments.eq_def (f stop)]
  refine (readLevel_relocates f stop 0 depth ts).bind fun arg rest shorter _ => ?_
  match rest with
  | [] => rfl
  | ⟨token, column⟩ :: rest₁ =>
      have : rest₁.length < ts.length := Nat.lt_of_succ_lt shorter
      cases token with
      | comma => exact (readArguments_relocates f stop depth rest₁).bind fun _ _ _ _ => ⟨rfl, rfl⟩
      | closeParen => exact ⟨rfl, rfl⟩
      | ident | number | string | bool | null | op | not | openParen | dot => rfl
termination_by (ts.length, 4 + BinOp.levels)

end

theorem Expr.column_relocate (f : Nat → Nat) (e : Expr) : (e.relocate f).column = f e.column := by
  induction e using Expr.column.induct with
  | case1 | case2 | case4 | case5 => rfl
  | case3 target name ih => exact ih
  | case6 op left right ih => exact ih

theorem Expr.path?_relocate (f : Nat → Nat) (e : Expr) : (e.relocate f).path? = e.path? := by
  induction e using Expr.path?.induct with
  | case1 name column => rfl
  | case2 target name ih => rw [Expr.relocate, path?, path?, ih]
  | case3 e other other' =>
      cases e with
      | ident => exact (other _ _ rfl).elim
      | member => exact (other' _ _ rfl).elim
      | literal | call | unary | binary => rfl

theorem staticType?_relocate (d : Declaring) (f : Nat → Nat) (e : Expr) :
    staticType? d (e.relocate f) = staticType? d e := by
  rw [staticType?, staticType?, e.path?_relocate]

theorem Expr.length_relocateArguments (f : Nat → Nat) (args : List Expr) :
    (Expr.relocateArguments f args).length = args.length := by
  induction args with
  | nil => rfl
  | cons arg args ih => rw [relocateArguments, List.length_cons, List.length_cons, ih]

theorem mapError_bind {ε ε' : Type} (r : ε → ε') (x : Except ε α) (g : α → Except ε β) :
    (x >>= g).mapError r = x.mapError r >>= fun a => (g a).mapError r := by
  cases x with
  | error _ => rfl
  | ok _ => rfl

theorem mapError_faultAt (f : Nat → Nat) (column : Nat) (x : Except Fault α) :
    (faultAt column x).mapError (Diagnostic.relocate f) = faultAt (f column) x := by
  cases x with
  | error _ => rfl
  | ok _ => rfl

mutual

theorem infer_relocate (d : Declaring) (tools : Toolchain) (f : Nat → Nat) :
    ∀ e : Expr, infer d tools (e.relocate f) =
      (infer d tools e).mapError (Diagnostic.relocate f)
  | .literal value column => by
      rw [Expr.relocate, infer, infer]
      rfl
  | .ident name column => by
      rw [Expr.relocate, infer, infer, mapError_faultAt]
  | .member target name => by
      rw [Expr.relocate, infer, infer, staticType?_relocate, Expr.column_relocate]
      cases staticType? d target with
      | some type => rw [mapError_faultAt]
      | none =>
          simp only [mapError_bind, mapError_faultAt, infer_relocate d tools f target,
            Expr.dotted?, Expr.path?_relocate]
  | .call name args column => by
      rw [Expr.relocate, infer, infer]
      cases signature? d tools name with
      | none => rfl
      | some signature =>
          dsimp only
          rw [Expr.length_relocateArguments]
          split
          · rw [mapError_bind, checkArgs_relocate d tools f name 1 signature.1 args]
            rfl
          · rfl
  | .unary op operand column => by
      rw [Expr.relocate, infer, infer, mapError_bind, infer_relocate d tools f operand]
      congr 1
      funext ty
      cases op.result? ty with
      | none => rfl
      | some result => rfl
  | .binary op left right => by
      simp only [Expr.relocate, infer, mapError_bind, infer_relocate d tools f left,
        infer_relocate d tools f right, Expr.column_relocate]
      congr 1
      funext l
      congr 1
      funext r
      cases op.result? l r with
      | none => rfl
      | some result => rfl

theorem checkArgs_relocate (d : Declaring) (tools : Toolchain) (f : Nat → Nat) (name : String) :
    ∀ (index : Nat) (params : List Ty) (args : List Expr),
      checkArgs d tools name index params (Expr.relocateArguments f args) =
        (checkArgs d tools name index params args).mapError (Diagnostic.relocate f)
  | index, [], args => by
      rw [checkArgs, checkArgs]
      · rfl
      · nofun
      · nofun
  | index, _ :: _, [] => by
      rw [Expr.relocateArguments, checkArgs]
      · rfl
      · nofun
  | index, expected :: params, arg :: args => by
      rw [Expr.relocateArguments, checkArgs, checkArgs, mapError_bind,
        infer_relocate d tools f arg, Expr.column_relocate]
      congr 1
      funext actual
      split
      · exact checkArgs_relocate d tools f name (index + 1) params args
      · rfl

end

end RuleLint.Rule
