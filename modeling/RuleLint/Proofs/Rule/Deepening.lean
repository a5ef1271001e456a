import RuleLint.Rule.Parser

namespace RuleLint.Rule

variable {α β : Type} {stop : Nat}

/-- The first says that the levels do not suffice, or else it is the second. -/
def Agrees (x y : Except Diagnostic α) : Prop :=
  (∃ column, x = .error ⟨.tooDeep, column⟩) ∨ x = y

theorem Agrees.refl (x : Except Diagnostic α) : Agrees x x := .inr rfl

theorem agrees_tooDeep (column : Nat) (y : Except Diagnostic α) :
    Agrees (.error ⟨.tooDeep, column⟩) y := .inl ⟨column, rfl⟩

theorem Agrees.bind {x y : Except Diagnostic α} {f g : α → Except Diagnostic β}
    (first : Agrees x y) (next : ∀ a, Agrees (f a) (g a)) : Agrees (x >>= f) (y >>= g) := by
  rcases first with ⟨column, rfl⟩ | rfl
  · exact .inl ⟨column, rfl⟩
  · cases x with
    | ok a => exact next a
    | error d => exact .refl _

theorem Agrees.map {x y : Except Diagnostic α} (first : Agrees x y) (f : α → Except Diagnostic β) :
    Agrees (x >>= f) (y >>= f) :=
  first.bind fun _ => .refl _

mutual

theorem readLevel_agrees {depth depth' : Nat} (k : Nat) (ts : List Placed) (le : depth ≤ depth') :
    Agrees (readLevel stop k depth ts) (readLevel stop k depth' ts) := by
  rw [readLevel.eq_def stop k depth, readLevel.eq_def stop k depth']
  split
  · refine (readLevel_agrees (k + 1) ts le).bind ?_
    rintro ⟨⟨first, rest⟩, shorter⟩
    exact (readChain_agrees k first rest le).map _
  · exact readUnary_agrees ts le
termination_by (ts.length, 3 + (BinOp.levels - k))

theorem readChain_agrees {depth depth' : Nat} (k : Nat) (left : Expr) (ts : List Placed)
    (le : depth ≤ depth') :
    Agrees (readChain stop k depth left ts) (readChain stop k depth' left ts) := by
  rw [readChain.eq_def stop k depth, readChain.eq_def stop k depth']
  split
  · rename_i op column rest
    split
    · match depth, depth', le with
      | 0, _, _ => exact agrees_tooDeep _ _
      | depth + 1, depth' + 1, le =>
        have le := Nat.le_of_succ_le_succ le
        refine (readLevel_agrees (k + 1) rest le).bind ?_
        rintro ⟨⟨right, rest₁⟩, shorter⟩
        have : rest₁.length < rest.length := shorter
        exact (readChain_agrees k (.binary op left right) rest₁ le).map _
    · exact .refl _
  · exact .refl _
termination_by (ts.length, 0)
decreasing_by
  all_goals
    subst_vars
    decreasing_tactic

theorem readUnary_agrees {depth depth' : Nat} (ts : List Placed) (le : depth ≤ depth') :
    Agrees (readUnary stop depth ts) (readUnary stop depth' ts) := by
  rw [readUnary.eq_def stop depth, readUnary.eq_def stop depth']
  split
  · exact .refl _
  · rename_i token column rest
    split
    · rename_i op
      match depth, depth', le with
      | 0, _, _ => exact agrees_tooDeep _ _
      | depth + 1, depth' + 1, le =>
        exact (readUnary_agrees rest (Nat.le_of_succ_le_succ le)).map _
    · exact readSelection_agrees _ le
termination_by (ts.length, 2)
decreasing_by
  all_goals
    subst_vars
    decreasing_tactic

theorem readSelection_agrees {depth depth' : Nat} (ts : List Placed) (le : depth ≤ depth') :
    Agrees (readSelection stop depth ts) (readSelection stop depth' ts) := by
  rw [readSelection.eq_def stop depth, readSelection.eq_def stop depth']
  refine (readPrimary_agrees ts le).bind ?_
  rintro ⟨⟨first, rest⟩, shorter⟩
  exact (readMembers_agrees first rest le).map _
termination_by (ts.length, 1)

theorem readMembers_agrees {depth depth' : Nat} (target : Expr) (ts : List Placed)
    (le : depth ≤ depth') :
    Agrees (readMembers stop depth target ts) (readMembers stop depth' target ts) := by
  rw [readMembers.eq_def stop depth, readMembers.eq_def stop depth']
  split
  · rename_i column rest
    match depth, depth', le with
    | 0, _, _ => exact agrees_tooDeep _ _
    | depth + 1, depth' + 1, le =>
      dsimp only
      split
      · rename_i name column' rest₁
        exact (readMembers_agrees (.member target name) rest₁ (Nat.le_of_succ_le_succ le)).map _
      · exact .refl _
  · exact .refl _
  · exact .refl _
termination_by (ts.length, 0)

theorem readPrimary_agrees {depth depth' : Nat} (ts : List Placed) (le : depth ≤ depth') :
    Agrees (readPrimary stop depth ts) (readPrimary stop depth' ts) := by
  rw [readPrimary.eq_def stop depth, readPrimary.eq_def stop depth']
  split
  · exact .refl _
  · exact .refl _
  · exact .refl _
  · exact .refl _
  · rename_i column rest
    match depth, depth', le with
    | 0, _, _ => exact agrees_tooDeep _ _
    | depth + 1, depth' + 1, le => exact (readLevel_agrees 0 rest (Nat.le_of_succ_le_succ le)).map _
  · rename_i name column column' rest
    match depth, depth', le with
    | 0, _, _ => exact agrees_tooDeep _ _
    | depth + 1, depth' + 1, le =>
      dsimp only
      split
      · exact .refl _
      · exact (readArguments_agrees rest (Nat.le_of_succ_le_succ le)).map _
  · exact .refl _
  · exact .refl _
termination_by (ts.length, 0)

theorem readArguments_agrees {depth depth' : Nat} (ts : List Placed) (le : depth ≤ depth') :
    Agrees (readArguments stop depth ts) (readArguments stop depth' ts) := by
  rw [readArguments.eq_def stop depth, readArguments.eq_def stop depth']
  refine (readLevel_agrees 0 ts le).bind ?_
  rintro ⟨⟨arg, rest⟩, shorter⟩
  dsimp only
  split
  · rename_i column rest₁
    have : rest₁.length < ts.length := Nat.lt_of_succ_lt shorter
    exact (readArguments_agrees rest₁ le).map _
  · exact .refl _
  · exact .refl _
termination_by (ts.length, 4 + BinOp.levels)

end

end RuleLint.Rule
