import RuleLint.Proofs.Rule.Parsing

namespace RuleLint.Rule

variable {α β : Type} {p : α × List Placed → Prop} {q : β × List Placed → Prop}

theorem exists_cons_of_foundToken {ts : List Placed} {token : Token}
    (found : foundToken ts = some token) : ∃ column rest, ts = ⟨token, column⟩ :: rest := by
  match ts, found with
  | ⟨_, column⟩ :: rest, rfl => exact ⟨column, rest, rfl⟩

theorem eq_nil_of_foundToken {ts : List Placed} (found : foundToken ts = none) : ts = [] := by
  match ts, found with
  | [], rfl => rfl

theorem foundToken_append {front after after' : List Placed}
    (same : foundToken after' = foundToken after) :
    foundToken (front ++ after') = foundToken (front ++ after) := by
  cases front with
  | nil => exact same
  | cons t front => rfl

theorem Ends.of_foundToken {k : Nat} {rest rest' : List Placed} (ends : Ends k rest)
    (same : foundToken rest' = foundToken rest) : Ends k rest' :=
  fun token found => ends token (same.symm.trans found)

theorem Gives.of_bind {b : β} {rest' : List Placed}
    {x : Except Diagnostic { read : α × List Placed // p read }}
    {f : { read : α × List Placed // p read } →
      Except Diagnostic { read : β × List Placed // q read }}
    (gives : Gives (x >>= f) b rest') :
    ∃ a rest fits, Gives x a rest ∧ Gives (f ⟨(a, rest), fits⟩) b rest' := by
  match x with
  | .ok ⟨(a, rest), fits⟩ => exact ⟨a, rest, fits, ⟨fits, rfl⟩, gives⟩
  | .error d =>
      obtain ⟨_, read⟩ := gives
      cases read

theorem Gives.of_ok {a b : α} {rest rest' : List Placed} {fits : p (a, rest)}
    (gives : Gives (.ok ⟨(a, rest), fits⟩) b rest') : a = b ∧ rest = rest' := by
  obtain ⟨_, read⟩ := gives
  cases read
  exact ⟨rfl, rfl⟩

theorem Meets.of_gives {P : α → List Placed → Prop} {a : α} {rest : List Placed}
    {x : Except Diagnostic { read : α × List Placed // p read }} (meets : Meets P x)
    (gives : Gives x a rest) : P a rest := by
  obtain ⟨_, rfl⟩ := gives
  exact meets

variable {nesting : Nesting} {stop : Nat}

theorem ends_of_readMembers {depth : Nat} {target whole : Expr} {ts rest : List Placed}
    (gives : Gives (readMembers stop depth target ts) whole rest) : Ends BinOp.levels rest := by
  rw [readMembers.eq_def] at gives
  split at gives
  · split at gives
    · obtain ⟨_, ⟨⟩⟩ := gives
    · split at gives
      · obtain ⟨e, rest₂, le, inner, whole⟩ := gives.of_bind
        obtain ⟨rfl, rfl⟩ := whole.of_ok
        exact ends_of_readMembers inner
      · obtain ⟨_, ⟨⟩⟩ := gives
  · obtain ⟨_, ⟨⟩⟩ := gives
  · rename_i unpointed uncalled
    obtain ⟨_, ⟨⟩⟩ := gives
    intro token found
    obtain ⟨column, rest, rfl⟩ := exists_cons_of_foundToken found
    refine ⟨?_, ?_, fun op _ => op.level_lt_levels⟩
    · rintro rfl
      exact unpointed _ _ rfl
    · rintro rfl
      exact uncalled _ _ rfl
termination_by ts.length

theorem ends_of_readSelection {depth : Nat} {e : Expr} {ts rest : List Placed}
    (gives : Gives (readSelection stop depth ts) e rest) : Ends BinOp.levels rest := by
  rw [readSelection] at gives
  obtain ⟨first, rest₁, shorter, -, after⟩ := gives.of_bind
  obtain ⟨e, rest', le, members, whole⟩ := after.of_bind
  obtain ⟨rfl, rfl⟩ := whole.of_ok
  exact ends_of_readMembers members

theorem ends_of_readUnary {depth : Nat} {e : Expr} {ts rest : List Placed}
    (gives : Gives (readUnary stop depth ts) e rest) : Ends BinOp.levels rest := by
  rw [readUnary.eq_def] at gives
  split at gives
  · obtain ⟨_, ⟨⟩⟩ := gives
  · split at gives
    · split at gives
      · obtain ⟨_, ⟨⟩⟩ := gives
      · obtain ⟨operand, rest', shorter, inner, whole⟩ := gives.of_bind
        obtain ⟨rfl, rfl⟩ := whole.of_ok
        exact ends_of_readUnary inner
    · exact ends_of_readSelection gives
termination_by ts.length

mutual

theorem ends_of_readLevel {k depth : Nat} {e : Expr} {ts rest : List Placed}
    (gives : Gives (readLevel stop k depth ts) e rest) (level : k ≤ BinOp.levels) :
    Ends k rest := by
  rw [readLevel] at gives
  split at gives
  · rename_i lower
    obtain ⟨first, rest₁, shorter, operand, after⟩ := gives.of_bind
    obtain ⟨e, rest', le, chain, whole⟩ := after.of_bind
    obtain ⟨rfl, rfl⟩ := whole.of_ok
    exact ends_of_readChain chain (ends_of_readLevel operand lower) lower
  · obtain rfl : k = BinOp.levels := by omega
    exact ends_of_readUnary gives
termination_by (ts.length, 3 + (BinOp.levels - k))

theorem ends_of_readChain {k depth : Nat} {left whole : Expr} {ts rest : List Placed}
    (gives : Gives (readChain stop k depth left ts) whole rest) (ends : Ends (k + 1) ts)
    (lower : k < BinOp.levels) : Ends k rest := by
  rw [readChain.eq_def] at gives
  split at gives
  · rename_i op column rest₀
    split at gives
    · split at gives
      · obtain ⟨_, ⟨⟩⟩ := gives
      · obtain ⟨right, rest₁, shorter, operand, after⟩ := gives.of_bind
        have : rest₁.length < rest₀.length := shorter
        obtain ⟨e, rest₂, le, chain, whole⟩ := after.of_bind
        obtain ⟨rfl, rfl⟩ := whole.of_ok
        exact ends_of_readChain chain (ends_of_readLevel operand lower) lower
    · rename_i other
      obtain ⟨_, ⟨⟩⟩ := gives
      have looser : op.level < k + 1 := (ends _ rfl).2.2 op rfl
      exact ends_op (by omega)
  · rename_i no_op
    obtain ⟨_, ⟨⟩⟩ := gives
    intro token found
    obtain ⟨dot, openParen, -⟩ := ends token found
    refine ⟨dot, openParen, ?_⟩
    rintro op rfl
    obtain ⟨column, rest, rfl⟩ := exists_cons_of_foundToken found
    exact (no_op _ _ _ rfl).elim
termination_by (ts.length, 0)
decreasing_by
  all_goals
    subst_vars
    decreasing_tactic

end

theorem Derives.readPrimary {n depth : Nat} {ts : List Placed} {e : Expr}
    (derives : Derives nesting n ts (.primary e)) (called : nesting.emptyCall = 1)
    (fits : n + depth = nesting.limit) {rest : List Placed}
    (apart : ∀ name column, ts = [⟨.ident name, column⟩] → foundToken rest ≠ some .openParen) :
    Gives (readPrimary stop depth (ts ++ rest)) e rest := by
  cases derives with
  | literal writes => exact gives_literal writes
  | ident => exact gives_ident (apart _ _ rfl)
  | parens deeper inside =>
      obtain ⟨d, rfl⟩ : ∃ d, depth = d + 1 := ⟨depth - 1, by omega⟩
      rw [List.cons_append, List.append_assoc]
      exact (inside.readFrom called stop d (by omega) _ ends_closeParen).parens
  | emptyCall deeper =>
      obtain ⟨d, rfl⟩ : ∃ d, depth = d + 1 := ⟨depth - 1, by omega⟩
      exact gives_emptyCall
  | call deeper inside =>
      obtain ⟨d, rfl⟩ : ∃ d, depth = d + 1 := ⟨depth - 1, by omega⟩
      rw [List.cons_append, List.cons_append, List.append_assoc]
      exact (inside.readFrom called stop d (by omega) _ rest).call inside.foundToken_ne_closeParen

theorem Derives.eq_ident {n column : Nat} {ts : List Placed} {name : String} {e : Expr}
    (derives : Derives nesting n ts (.primary e)) (only : ts = [⟨.ident name, column⟩]) :
    e = .ident name column := by
  cases derives with
  | literal writes =>
      cases only
      cases writes
  | ident =>
      cases only
      rfl
  | parens | emptyCall | call => cases only

theorem readPrimary_again {n depth : Nat} {ts rest : List Placed} {e : Expr}
    (gives : Gives (readPrimary stop depth ts) e rest) (called : nesting.emptyCall = 1)
    (fits : n + depth = nesting.limit) :
    ∃ front, ts = front ++ rest ∧ Derives nesting n front (.primary e) ∧
      ∀ rest', foundToken rest' = foundToken rest →
        Gives (readPrimary stop depth (front ++ rest')) e rest' := by
  obtain ⟨front, rfl, derives⟩ := (readPrimary_meets ts called fits).of_gives gives
  refine ⟨front, rfl, derives, fun rest' same => derives.readPrimary called fits ?_⟩
  rintro name column rfl
  rw [same]
  intro found
  obtain ⟨column', rest, rfl⟩ := exists_cons_of_foundToken found
  obtain rfl := derives.eq_ident rfl
  -- A name before a parenthesis is the name of a call.
  rw [List.singleton_append, readPrimary.eq_def] at gives
  dsimp only at gives
  split at gives
  · obtain ⟨_, read⟩ := gives
    cases read
  · split at gives
    · cases gives.of_ok.1
    · obtain ⟨args, rest', _, -, read⟩ := gives.of_bind
      cases read.of_ok.1

end RuleLint.Rule
