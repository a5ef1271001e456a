import RuleLint.Proofs.Rule.Lookahead
import RuleLint.Proofs.Rule.Shifting

/-!
# Where a parse is refused

A reader refuses tokens at the first one that cannot come where it stands (`Pinpoints`). The tokens
before it can be completed to what is read, and the reader refuses all tokens that go on with it
after them. Only a lack of levels is found before that token is reached. For a text this is
`parse_error_at_first`.
-/

namespace RuleLint.Rule

variable {α β : Type} {p : α × List Placed → Prop} {nesting : Nesting} {stop : Nat}

/-! ## Completing what was read -/

def Spelled (ts : List Placed) : Prop := ∀ t ∈ ts, ∃ word, t.token.Spells word

theorem spelled_nil : Spelled [] := List.forall_mem_nil _

theorem spelled_a : Spelled [⟨.ident "a", 0⟩] := by
  rw [Spelled, List.forall_mem_singleton]
  have word : IsWord "a" := ⟨'a', [], rfl, rfl, rfl⟩
  exact ⟨_, .word word⟩

theorem spelled_closeParen : Spelled [⟨.closeParen, 0⟩] := by
  rw [Spelled, List.forall_mem_singleton]
  exact ⟨_, .mark _ rfl⟩

/-- The tokens, with others after them, make up a phrase. -/
def Viable (nesting : Nesting) (n : Nat) (phrase : α → Phrase) (front : List Placed) : Prop :=
  ∃ more a, Spelled more ∧ Derives nesting n (front ++ more) (phrase a)

section

variable {n n' : Nat} {phrase : α → Phrase} {phrase' : β → Phrase} {front : List Placed}

theorem Derives.viable {a : α} (derives : Derives nesting n front (phrase a)) :
    Viable nesting n phrase front :=
  ⟨[], a, spelled_nil, by rwa [List.append_nil]⟩

theorem Viable.between (viable : Viable nesting n phrase front) (before : List Placed)
    {more : List Placed} (spelled : Spelled more)
    (whole : ∀ ts a, Derives nesting n ts (phrase a) →
      ∃ b, Derives nesting n' (before ++ (ts ++ more)) (phrase' b)) :
    Viable nesting n' phrase' (before ++ front) := by
  obtain ⟨inner, a, spelledInner, derives⟩ := viable
  obtain ⟨b, derives'⟩ := whole _ a derives
  refine ⟨inner ++ more, b, List.forall_mem_append.mpr ⟨spelledInner, spelled⟩, ?_⟩
  simpa using derives'

theorem Viable.after (viable : Viable nesting n phrase front) (before : List Placed)
    (whole : ∀ ts a, Derives nesting n ts (phrase a) →
      ∃ b, Derives nesting n' (before ++ ts) (phrase' b)) :
    Viable nesting n' phrase' (before ++ front) :=
  viable.between before spelled_nil fun ts a derives => by
    rw [List.append_nil]
    exact whole ts a derives

theorem Viable.imp (viable : Viable nesting n phrase front)
    (whole : ∀ ts a, Derives nesting n ts (phrase a) → ∃ b, Derives nesting n' ts (phrase' b)) :
    Viable nesting n' phrase' front :=
  viable.after [] whole

theorem viable_nil {a : α} (primary : Derives nesting n [⟨.ident "a", 0⟩] (phrase a)) :
    Viable nesting n phrase [] := ⟨_, _, spelled_a, primary⟩

end

/-! ## Where readers refuse -/

def Fails (x : Except Diagnostic α) : Prop := ∃ d, x = .error d

theorem fails_error (d : Diagnostic) : Fails (.error d : Except Diagnostic α) := ⟨d, rfl⟩

theorem Fails.bind {x : Except Diagnostic α} {f : α → Except Diagnostic β} (fails : Fails x) :
    Fails (x >>= f) := by
  obtain ⟨d, rfl⟩ := fails
  exact ⟨d, rfl⟩

theorem Gives.bind_fails {a : α} {rest : List Placed}
    {x : Except Diagnostic { read : α × List Placed // p read }}
    {f : { read : α × List Placed // p read } → Except Diagnostic β} (first : Gives x a rest)
    (next : ∀ fits, Fails (f ⟨(a, rest), fits⟩)) : Fails (x >>= f) := by
  obtain ⟨fits, rfl⟩ := first
  exact next fits

/-- If the reader refuses the tokens `ts`, then at one of them or at their end. Unless the levels do
not suffice, the tokens before it are viable, and what goes on with it after them is refused. -/
def Pinpoints (stop : Nat) (viable fails : List Placed → Prop) (ts : List Placed)
    (x : Except Diagnostic α) : Prop :=
  ∀ d, x = .error d → ∃ front after, ts = front ++ after ∧ d.column = foundColumn stop after ∧
    (d.fault = .tooDeep ∨
      viable front ∧ ∀ after', foundToken after' = foundToken after → fails (front ++ after'))

section

variable {viable fails viable' fails' : List Placed → Prop} {ts : List Placed}

theorem pinpoints_ok (a : α) : Pinpoints stop viable fails ts (.ok a) := nofun

theorem pinpoints_tooDeep (t : Placed) (ts : List Placed) :
    Pinpoints stop viable fails (t :: ts) (.error ⟨.tooDeep, t.column⟩ : Except Diagnostic α) := by
  rintro d ⟨⟩
  exact ⟨[], t :: ts, rfl, rfl, .inl rfl⟩

theorem pinpoints_error {after : List Placed} (front : List Placed) (fault : Fault)
    (completes : viable front)
    (refuses : ∀ after', foundToken after' = foundToken after → fails (front ++ after')) :
    Pinpoints stop viable fails (front ++ after)
      (.error ⟨fault, foundColumn stop after⟩ : Except Diagnostic α) := by
  rintro d ⟨⟩
  exact ⟨front, after, rfl, rfl, .inr ⟨completes, refuses⟩⟩

theorem Pinpoints.bind {x : Except Diagnostic { read : α × List Placed // p read }}
    {f : { read : α × List Placed // p read } → Except Diagnostic β}
    (first : Pinpoints stop viable fails ts x)
    (next : ∀ a rest fits, Gives x a rest → Pinpoints stop viable fails ts (f ⟨(a, rest), fits⟩)) :
    Pinpoints stop viable fails ts (x >>= f) := by
  intro d refused
  match x with
  | .ok ⟨(a, rest), fits⟩ => exact next a rest fits ⟨fits, rfl⟩ d refused
  | .error _ => exact first d (congrArg Except.error (Except.error.inj refused))

theorem Pinpoints.of_eq {ts' : List Placed} {x : Except Diagnostic α} (same : ts = ts')
    (pinpoints : Pinpoints stop viable fails ts' x) : Pinpoints stop viable fails ts x :=
  same ▸ pinpoints

theorem Pinpoints.after {rest : List Placed} {x : Except Diagnostic α}
    (inner : Pinpoints stop viable' fails' rest x) (before : List Placed)
    (completes : ∀ front, viable' front → viable (before ++ front))
    (refuses : ∀ ts', foundToken ts' = foundToken rest → fails' ts' → fails (before ++ ts')) :
    Pinpoints stop viable fails (before ++ rest) x := by
  intro d refused
  obtain ⟨front, after, rfl, at', tooDeep | ⟨viable, fails⟩⟩ := inner d refused
  · exact ⟨before ++ front, after, (List.append_assoc ..).symm, at', .inl tooDeep⟩
  · refine ⟨before ++ front, after, (List.append_assoc ..).symm, at', .inr
      ⟨completes front viable, fun after' same => ?_⟩⟩
    rw [List.append_assoc]
    exact refuses _ (foundToken_append same) (fails after' same)

end

theorem readMembers_fails {depth column : Nat} {target : Expr} {ts : List Placed}
    (unnamed : ∀ name, foundToken ts ≠ some (.ident name)) :
    Fails (readMembers stop (depth + 1) target (⟨.dot, column⟩ :: ts)) := by
  rw [readMembers.eq_def]
  dsimp only
  split
  · exact (unnamed _ rfl).elim
  · exact fails_error _

-- By recursion on the readers, like `readLevel_meets`. Where one reader follows another, what the
-- first one read is read again before the tokens that the second one refuses.

mutual

theorem readLevel_pinpoints {n k depth : Nat} (ts : List Placed) (called : nesting.emptyCall = 1)
    (level : k ≤ BinOp.levels) (fits : n + depth = nesting.limit) :
    Pinpoints stop (Viable nesting n (.level k)) (fun ts => Fails (readLevel stop k depth ts)) ts
      (readLevel stop k depth ts) := by
  rw [readLevel.eq_def stop k depth ts]
  split
  · rename_i lower
    refine ((readLevel_pinpoints ts called lower fits).after [] ?_ ?_).bind ?_
    · intro front viable
      exact viable.imp fun ts e operand => ⟨e, operand.loosen (Nat.le_succ k) lower⟩
    · intro ts' _ fails
      rw [List.nil_append, readLevel, if_pos lower]
      exact fails.bind
    · intro first rest shorter gives
      obtain ⟨front, rfl, operand⟩ := (readLevel_meets ts called lower fits).of_gives gives
      have ends := ends_of_readLevel gives lower
      refine ((readChain_pinpoints rest called lower fits (.operand lower operand)).after front
        ?_ ?_).bind fun _ _ _ _ => pinpoints_ok _
      · intro front' viable
        exact viable.imp fun ts chain derives => ⟨chain.2, .chain derives⟩
      · intro ts' same fails
        rw [readLevel, if_pos lower]
        exact (operand.readFrom called stop depth fits ts' (ends.of_foundToken same)).bind_fails
          fun _ => fails.bind
  · obtain rfl : k = BinOp.levels := by omega
    refine (readUnary_pinpoints ts called fits).after [] ?_ ?_
    · intro front viable
      exact viable.imp fun ts e operand => ⟨e, .unary operand⟩
    · intro ts' _ fails
      rwa [List.nil_append, readLevel, if_neg (Nat.lt_irrefl _)]
termination_by (ts.length, 3 + (BinOp.levels - k))

theorem readChain_pinpoints {n k i depth : Nat} (ts : List Placed) (called : nesting.emptyCall = 1)
    (lower : k < BinOp.levels) (fits : n + i + depth = nesting.limit) {before : List Placed}
    {left : Expr} (chain : Derives nesting n before (.chain k i left)) :
    Pinpoints stop
      (fun front => Viable nesting n (fun c : Nat × Expr => .chain k c.1 c.2) (before ++ front))
      (fun ts => Fails (readChain stop k depth left ts)) ts (readChain stop k depth left ts) := by
  rw [readChain.eq_def stop k depth left ts]
  split
  · rename_i op column rest
    split
    · rename_i level
      split
      · exact pinpoints_tooDeep ⟨.op op, column⟩ rest
      · rename_i depth
        have fits' : n + (i + 1) + depth = nesting.limit := by omega
        refine ((readLevel_pinpoints rest called lower fits').after [⟨.op op, column⟩]
          ?_ ?_).bind ?_
        · intro front viable
          have whole : Viable nesting n (fun c : Nat × Expr => .chain k c.1 c.2)
              (before ++ [⟨.op op, column⟩] ++ front) :=
            viable.after _ fun ts right operand => ⟨(i + 1, .binary op left right), by
              simpa using Derives.operator chain level (by omega) operand⟩
          simpa using whole
        · intro ts' _ fails
          rw [List.singleton_append, readChain, if_pos level]
          exact fails.bind
        · intro right rest₁ shorter gives
          obtain ⟨front, rfl, operand⟩ := (readLevel_meets rest called lower fits').of_gives gives
          have ends := ends_of_readLevel gives lower
          have extended : Derives nesting n (before ++ ⟨.op op, column⟩ :: front)
              (.chain k (i + 1) (.binary op left right)) :=
            .operator chain level (by omega) operand
          refine ((readChain_pinpoints rest₁ called lower (by omega) extended).after
            (⟨.op op, column⟩ :: front) ?_ ?_).bind fun _ _ _ _ => pinpoints_ok _
          · intro front' viable
            simpa using viable
          · intro ts' same fails
            have again := operand.readFrom called stop depth fits' ts' (ends.of_foundToken same)
            rw [List.cons_append, readChain, if_pos level]
            exact again.bind_fails fun _ => fails.bind
    · exact pinpoints_ok _
  · exact pinpoints_ok _
termination_by (ts.length, 0)

theorem readUnary_pinpoints {n depth : Nat} (ts : List Placed) (called : nesting.emptyCall = 1)
    (fits : n + depth = nesting.limit) :
    Pinpoints stop (Viable nesting n .unary) (fun ts => Fails (readUnary stop depth ts)) ts
      (readUnary stop depth ts) := by
  match ts with
  | [] =>
      rw [readUnary.eq_def stop depth []]
      refine pinpoints_error [] _ (viable_nil (.selection (.primary .ident))) fun after' same => ?_
      obtain rfl := eq_nil_of_foundToken same
      rw [List.nil_append, readUnary]
      exact fails_error _
  | ⟨token, column⟩ :: rest =>
      rw [readUnary.eq_def stop depth (⟨token, column⟩ :: rest)]
      dsimp only
      split
      · rename_i op signs
        split
        · exact pinpoints_tooDeep ⟨token, column⟩ rest
        · rename_i depth
          have fits' : n + 1 + depth = nesting.limit := by omega
          refine ((readUnary_pinpoints rest called fits').after [⟨token, column⟩] ?_ ?_).bind
            fun _ _ _ _ => pinpoints_ok _
          · intro front viable
            exact viable.after [⟨token, column⟩] fun ts e operand =>
              ⟨_, .sign signs (by omega) operand⟩
          · intro ts' _ fails
            rw [List.singleton_append, readUnary, signs]
            exact fails.bind
      · rename_i unsigned
        refine (readSelection_pinpoints (⟨token, column⟩ :: rest) called fits).after [] ?_ ?_
        · intro front viable
          exact viable.imp fun ts selected derives => ⟨selected.2, .selection derives⟩
        · intro ts' same fails
          obtain ⟨column', rest', rfl⟩ := exists_cons_of_foundToken same
          rwa [List.nil_append, readUnary, unsigned]
termination_by (ts.length, 2)

theorem readSelection_pinpoints {n depth : Nat} (ts : List Placed) (called : nesting.emptyCall = 1)
    (fits : n + depth = nesting.limit) :
    Pinpoints stop (Viable nesting n fun s : Nat × Expr => .selection s.1 s.2)
      (fun ts => Fails (readSelection stop depth ts)) ts (readSelection stop depth ts) := by
  rw [readSelection.eq_def stop depth ts]
  refine ((readPrimary_pinpoints ts called fits).after [] ?_ ?_).bind ?_
  · intro front viable
    exact viable.imp fun ts e first => ⟨(0, e), .primary first⟩
  · intro ts' _ fails
    rw [List.nil_append, readSelection]
    exact fails.bind
  · intro first rest shorter gives
    obtain ⟨front, rfl, primary, again⟩ := readPrimary_again gives called fits
    refine ((readMembers_pinpoints rest (i := 0) fits (.primary primary)).after front
      ?_ ?_).bind fun _ _ _ _ => pinpoints_ok _
    · exact fun _ => id
    · intro ts' same fails
      rw [readSelection]
      exact (again ts' same).bind_fails fun _ => fails.bind
termination_by (ts.length, 1)

theorem readMembers_pinpoints {n i depth : Nat} (ts : List Placed)
    (fits : n + i + depth = nesting.limit) {before : List Placed} {target : Expr}
    (selected : Derives nesting n before (.selection i target)) :
    Pinpoints stop
      (fun front => Viable nesting n (fun s : Nat × Expr => .selection s.1 s.2) (before ++ front))
      (fun ts => Fails (readMembers stop depth target ts)) ts
      (readMembers stop depth target ts) := by
  rw [readMembers.eq_def stop depth target ts]
  split
  · rename_i column rest
    split
    · exact pinpoints_tooDeep ⟨.dot, column⟩ rest
    · rename_i depth
      split
      · rename_i name column' rest₁
        have extended : Derives nesting n (before ++ [⟨.dot, column⟩, ⟨.ident name, column'⟩])
            (.selection (i + 1) (.member target name)) := .member selected (by omega)
        refine ((readMembers_pinpoints rest₁ (by omega) extended).after
          [⟨.dot, column⟩, ⟨.ident name, column'⟩] ?_ ?_).bind fun _ _ _ _ => pinpoints_ok _
        · intro front viable
          simpa using viable
        · intro ts' _ fails
          change Fails (readMembers stop (depth + 1) target
            (⟨.dot, column⟩ :: ⟨.ident name, column'⟩ :: ts'))
          rw [readMembers]
          exact fails.bind
      · rename_i unnamed
        refine pinpoints_error [⟨.dot, column⟩] _ ?_ fun after' same => ?_
        · exact ⟨[⟨.ident "a", 0⟩], (i + 1, .member target "a"), spelled_a, by
            simpa using selected.member (by omega)⟩
        · refine readMembers_fails fun name found => ?_
          obtain ⟨column', rest₁, rfl⟩ := exists_cons_of_foundToken (same.symm.trans found)
          exact unnamed _ _ _ rfl
  · rename_i column rest
    refine pinpoints_error [] _ (Derives.viable (a := (i, target)) ?_) fun after' same => ?_
    · simpa using selected
    · obtain ⟨column', rest', rfl⟩ := exists_cons_of_foundToken same
      rw [List.nil_append, readMembers]
      exact fails_error _
  · exact pinpoints_ok _
termination_by (ts.length, 0)

theorem readPrimary_pinpoints {n depth : Nat} (ts : List Placed) (called : nesting.emptyCall = 1)
    (fits : n + depth = nesting.limit) :
    Pinpoints stop (Viable nesting n .primary) (fun ts => Fails (readPrimary stop depth ts)) ts
      (readPrimary stop depth ts) := by
  rw [readPrimary.eq_def stop depth ts]
  split
  · exact pinpoints_ok _
  · exact pinpoints_ok _
  · exact pinpoints_ok _
  · exact pinpoints_ok _
  · rename_i column rest
    split
    · exact pinpoints_tooDeep ⟨.openParen, column⟩ rest
    · rename_i depth
      have fits' : n + 1 + depth = nesting.limit := by omega
      refine ((readLevel_pinpoints rest called (Nat.zero_le _) fits').after [⟨.openParen, column⟩]
        ?_ ?_).bind ?_
      · intro front viable
        exact viable.between [⟨.openParen, column⟩] spelled_closeParen fun ts e inside =>
          ⟨e, .parens (by omega) inside⟩
      · intro ts' _ fails
        rw [List.singleton_append, readPrimary]
        exact fails.bind
      · intro e rest₁ shorter gives
        obtain ⟨front, rfl, inside⟩ :=
          (readLevel_meets rest called (Nat.zero_le _) fits').of_gives gives
        have ends := ends_of_readLevel gives (Nat.zero_le _)
        dsimp only
        split
        · exact pinpoints_ok _
        · rename_i unclosed
          refine pinpoints_error (⟨.openParen, column⟩ :: front) _ ?_ fun after' same => ?_
          · exact ⟨[⟨.closeParen, 0⟩], e, spelled_closeParen, .parens (by omega) inside⟩
          · have again := inside.readFrom called stop depth fits' after' (ends.of_foundToken same)
            rw [List.cons_append, readPrimary]
            refine again.bind_fails fun _ => ?_
            dsimp only
            split
            · obtain ⟨column', rest', rfl⟩ := exists_cons_of_foundToken same.symm
              exact (unclosed _ _ rfl).elim
            · exact fails_error _
  · rename_i name column column' rest
    split
    · exact pinpoints_tooDeep ⟨.ident name, column⟩ _
    · rename_i depth
      have fits' : n + 1 + depth = nesting.limit := by omega
      split
      · exact pinpoints_ok _
      · rename_i filled
        refine ((readArguments_pinpoints rest called fits').after
          [⟨.ident name, column⟩, ⟨.openParen, column'⟩] ?_ ?_).bind fun _ _ _ _ => pinpoints_ok _
        · intro front viable
          exact viable.between [⟨.ident name, column⟩, ⟨.openParen, column'⟩] spelled_closeParen
            fun ts args inside => ⟨_, .call (by omega) inside⟩
        · intro ts' same fails
          change Fails (readPrimary stop (depth + 1)
            (⟨.ident name, column⟩ :: ⟨.openParen, column'⟩ :: ts'))
          rw [readPrimary]
          · exact fails.bind
          · rintro column'' rest' rfl
            obtain ⟨column, rest, rfl⟩ := exists_cons_of_foundToken same.symm
            exact filled _ _ rfl
  · exact pinpoints_ok _
  · rename_i number string bool null openParen _ ident
    refine pinpoints_error [] _ (viable_nil .ident) fun after' same => ?_
    rw [List.nil_append, readPrimary.eq_def]
    match after' with
    | [] => exact fails_error _
    | ⟨token, column⟩ :: rest =>
        obtain ⟨column', rest', rfl⟩ := exists_cons_of_foundToken same.symm
        cases token with
        | number => exact (number _ _ _ rfl).elim
        | string => exact (string _ _ _ rfl).elim
        | bool => exact (bool _ _ _ rfl).elim
        | null => exact (null _ _ rfl).elim
        | openParen => exact (openParen _ _ rfl).elim
        | ident => exact (ident _ _ _ rfl).elim
        | op | not | closeParen | comma | dot => exact fails_error _
termination_by (ts.length, 0)

theorem readArguments_pinpoints {n depth : Nat} (ts : List Placed) (called : nesting.emptyCall = 1)
    (fits : n + depth = nesting.limit) :
    Pinpoints stop (Viable nesting n .arguments) (fun ts => Fails (readArguments stop depth ts)) ts
      (readArguments stop depth ts) := by
  rw [readArguments.eq_def stop depth ts]
  refine ((readLevel_pinpoints ts called (Nat.zero_le _) fits).after [] ?_ ?_).bind ?_
  · intro front viable
    exact viable.imp fun ts e last => ⟨[e], .argument last⟩
  · intro ts' _ fails
    rw [List.nil_append, readArguments]
    exact fails.bind
  · intro arg rest shorter gives
    obtain ⟨front, rfl, first⟩ := (readLevel_meets ts called (Nat.zero_le _) fits).of_gives gives
    have ends := ends_of_readLevel gives (Nat.zero_le _)
    dsimp only
    split
    · rename_i column rest₁
      refine Pinpoints.of_eq (List.append_cons front ⟨.comma, column⟩ rest₁) ?_
      refine Pinpoints.bind ((readArguments_pinpoints rest₁ called fits).after
        (front ++ [⟨.comma, column⟩]) ?_ ?_) fun _ _ _ _ => pinpoints_ok _
      · intro front' viable
        exact viable.after (front ++ [⟨.comma, column⟩]) fun ts args others =>
          ⟨arg :: args, by simpa using first.arguments others⟩
      · intro ts' _ fails
        have again := first.readFrom called stop depth fits (⟨.comma, column⟩ :: ts') ends_comma
        rw [← List.append_cons, readArguments]
        exact again.bind_fails fun _ => fails.bind
    · exact pinpoints_ok _
    · rename_i other closed
      refine pinpoints_error front _ (Derives.argument first).viable fun after' same => ?_
      have again := first.readFrom called stop depth fits after' (ends.of_foundToken same)
      rw [readArguments]
      refine again.bind_fails fun _ => ?_
      dsimp only
      split
      · obtain ⟨column, rest', rfl⟩ := exists_cons_of_foundToken same.symm
        exact (other _ _ rfl).elim
      · obtain ⟨column, rest', rfl⟩ := exists_cons_of_foundToken same.symm
        exact (closed _ _ rfl).elim
      · exact fails_error _
termination_by (ts.length, 4 + BinOp.levels)

end

/-! ## Where a text is refused -/

theorem Lexed.parse_pinpoints (lexed : Lexed) :
    Pinpoints lexed.stop (Viable .standard 0 (.level 0))
      (fun ts => Fails (Lexed.parse ⟨ts, lexed.stop⟩)) lexed.tokens lexed.parse := by
  obtain ⟨ts, stop⟩ := lexed
  have fits : 0 + maxDepth = Nesting.standard.limit := Nat.zero_add _
  rw [Lexed.parse]
  refine ((readLevel_pinpoints ts rfl (Nat.zero_le _) fits).after [] ?_ ?_).bind ?_
  · exact fun _ => id
  · intro ts' _ fails
    exact fails.bind
  · intro e rest shorter gives
    obtain ⟨front, rfl, whole⟩ := (readLevel_meets ts rfl (Nat.zero_le _) fits).of_gives gives
    have ends := ends_of_readLevel gives (Nat.zero_le _)
    dsimp only
    split
    · exact pinpoints_ok _
    · rename_i t rest
      refine pinpoints_error front _ whole.viable fun after' same => ?_
      obtain ⟨column, rest', rfl⟩ := exists_cons_of_foundToken same
      have again := whole.readFrom rfl stop maxDepth fits _ (ends.of_foundToken same)
      rw [Lexed.parse]
      exact again.bind_fails fun _ => fails_error _

theorem exists_map_token_eq (tokens : List Token) :
    ∃ ts : List Placed, ts.map Placed.token = tokens :=
  ⟨tokens.map fun token => ⟨token, 0⟩, by rw [List.map_map, Function.comp_def, List.map_id']⟩

section

variable {ts front after front' after' : List Placed}

theorem head?_map_token : (ts.map Placed.token).head? = foundToken ts := List.head?_map

theorem foundColumn_mem : foundColumn stop after ∈ after.map Placed.column ++ [stop] := by
  cases after with
  | nil => exact List.mem_singleton_self stop
  | cons t after => exact List.mem_cons_self

theorem foundColumn_lt {t : Placed}
    (increasing : ((t :: front ++ after).map Placed.column ++ [stop]).Pairwise (· < ·)) :
    t.column < foundColumn stop after := by
  rw [List.cons_append, List.map_cons, List.cons_append, List.map_append, List.append_assoc,
    List.pairwise_cons] at increasing
  exact increasing.1 _ (List.mem_append_right _ foundColumn_mem)

theorem eq_of_foundColumn (increasing : (ts.map Placed.column ++ [stop]).Pairwise (· < ·))
    (split : ts = front ++ after) (split' : ts = front' ++ after')
    (same : foundColumn stop after = foundColumn stop after') :
    front = front' ∧ after = after' := by
  have later {mid rest : List Placed} (suffix : ∃ front, ts = front ++ (mid ++ rest))
      (same : foundColumn stop (mid ++ rest) = foundColumn stop rest) : mid = [] := by
    obtain ⟨front, rfl⟩ := suffix
    rw [List.map_append, List.append_assoc, List.pairwise_append] at increasing
    cases mid with
    | nil => rfl
    | cons t mid => exact absurd same (foundColumn_lt increasing.2.1).ne
  rcases List.append_eq_append_iff.mp (split.symm.trans split') with
    ⟨mid, rfl, rfl⟩ | ⟨mid, rfl, rfl⟩
  · obtain rfl := later ⟨front, split⟩ same
    exact ⟨(List.append_nil _).symm, rfl⟩
  · obtain rfl := later ⟨front', split'⟩ same.symm
    exact ⟨List.append_nil _, rfl⟩

end

theorem Viable.exists_parse {front : List Placed} (viable : Viable .standard 0 (.level 0) front)
    (spelled : Spelled front) :
    ∃ text lexed e, tokenize text = .ok lexed ∧ parse text = .ok e ∧
      front.map Placed.token <+: lexed.tokens.map Placed.token := by
  obtain ⟨more, e, spelledMore, derives⟩ := viable
  have each : ∀ token ∈ (front ++ more).map Placed.token, ∃ word, token.Spells word :=
    List.forall_mem_map.mpr (List.forall_mem_append.mpr ⟨spelled, spelledMore⟩)
  obtain ⟨text, lexed, split, same⟩ := exists_tokenize each
  obtain ⟨e', -, derives'⟩ := derives.shift same
  refine ⟨text, lexed, e', split, (parse_eq_ok_iff split e').mpr derives', ?_⟩
  rw [same, List.map_append]
  exact List.prefix_append _ _

/-- A syntax error, unless it is one of nesting, is reported at the first token that cannot come
where it stands. The tokens before it begin a text that is parsed. No tokens are parsed that begin
with those before it and it, or, where it is the end of the text, are just those before it. -/
theorem parse_error_at_first {input : String} {lexed : Lexed} {d : Diagnostic}
    (split : tokenize input = .ok lexed) (filled : ¬ input.toList.all Text.isBlank)
    (refused : parse input = .error d) (shallow : d.fault ≠ .tooDeep) :
    (∃ before after, lexed.tokens = before ++ after ∧ foundColumn lexed.stop after = d.column) ∧
    ∀ before after, lexed.tokens = before ++ after → foundColumn lexed.stop after = d.column →
      (∃ text lexed' e, tokenize text = .ok lexed' ∧ parse text = .ok e ∧
        before.map Placed.token <+: lexed'.tokens.map Placed.token) ∧
      ∀ (lexed' : Lexed) (more : List Token),
        lexed'.tokens.map Placed.token = before.map Placed.token ++ more →
        more.head? = foundToken after → ∀ e, lexed'.parse ≠ .ok e := by
  obtain ⟨stops, laid⟩ := tokenize_eq_ok_iff.mp split
  rw [parse_eq_of_tokenize split filled] at refused
  obtain ⟨front, rest, whole, at', tooDeep | ⟨viable, fails⟩⟩ := lexed.parse_pinpoints d refused
  · exact absurd tooDeep shallow
  refine ⟨⟨front, rest, whole, at'.symm⟩, fun before after whole' at'' => ?_⟩
  have increasing := laid.increasing
  rw [Nat.add_comm, String.length_toList, ← stops] at increasing
  obtain ⟨rfl, rfl⟩ := eq_of_foundColumn increasing whole whole' (at'.symm.trans at''.symm)
  have spelled : Spelled front := fun t member => by
    obtain ⟨word, spells, -⟩ := laid.spelled t (whole ▸ List.mem_append_left rest member)
    exact ⟨word, spells⟩
  refine ⟨viable.exists_parse spelled, fun lexed' more same first e parsed => ?_⟩
  obtain ⟨after, rfl⟩ := exists_map_token_eq more
  rw [head?_map_token] at first
  obtain ⟨d', refused'⟩ := fails after first
  -- The tokens of `lexed'` are read as they are after `front` itself.
  obtain ⟨e', -, parsed'⟩ : ∃ e', Expr.bare e' = e.bare ∧
      Lexed.parse ⟨front ++ after, lexed.stop⟩ = .ok e' :=
    Lexed.parse_shift parsed (by rw [same, List.map_append])
  rw [parsed'] at refused'
  cases refused'

namespace Unclosed

def text : String := .ofList ['f', '(', 'a', ' ', 'b']

def tokens : List Placed :=
  [⟨.ident "f", 1⟩, ⟨.openParen, 2⟩, ⟨.ident "a", 3⟩, ⟨.ident "b", 5⟩]

theorem filled_text : ¬ text.toList.all Text.isBlank := by
  rw [text, String.toList_ofList]
  exact Bool.false_ne_true

theorem tokenize_text : tokenize text = .ok ⟨tokens, 6⟩ := by
  have split : scan 1 ['f', '(', 'a', ' ', 'b'] = .ok tokens := by
    refine scan_cons_ok rfl rfl rfl rfl rfl ?_
    refine scan_cons_ok rfl rfl rfl rfl rfl ?_
    refine scan_cons_ok rfl rfl rfl rfl rfl ?_
    refine (scan_blank rfl).trans ?_
    refine scan_cons_ok rfl rfl rfl rfl rfl ?_
    exact scan_nil _
  rw [tokenize, text, String.toList_ofList, split]
  rfl

theorem readArguments_tokens :
    readArguments 6 127 [⟨.ident "a", 3⟩, ⟨.ident "b", 5⟩] =
      .error ⟨.argumentEnd (some (.ident "b")), 5⟩ := by
  have derives : Derives .standard 1 [⟨.ident "a", 3⟩] (.level 0 (.ident "a" 3)) :=
    Derives.ident.level_of_primary (Nat.zero_le _)
  have ends : Ends 0 [⟨.ident "b", 5⟩] := by
    rintro token ⟨⟩
    exact ⟨nofun, nofun, nofun⟩
  have gives : Gives (readLevel 6 0 127 [⟨.ident "a", 3⟩, ⟨.ident "b", 5⟩]) (.ident "a" 3)
      [⟨.ident "b", 5⟩] := derives.readFrom rfl 6 127 rfl _ ends
  obtain ⟨_, read⟩ := gives
  rw [readArguments, read]
  rfl

theorem parse_unclosed : parse text = .error ⟨.argumentEnd (some (.ident "b")), 5⟩ := by
  have primary : readPrimary 6 maxDepth tokens = .error ⟨.argumentEnd (some (.ident "b")), 5⟩ := by
    rw [tokens, maxDepth, readPrimary, readArguments_tokens]
    · rfl
    · nofun
  have unary : readUnary 6 maxDepth tokens = .error ⟨.argumentEnd (some (.ident "b")), 5⟩ := by
    rw [tokens, readUnary]
    change readSelection 6 maxDepth tokens = _
    rw [readSelection, primary]
    rfl
  rw [parse_eq_of_tokenize tokenize_text filled_text, Lexed.parse,
    readLevel_eq_error unary (Nat.zero_le _)]
  rfl

theorem refused_at_name :
    tokenize text = .ok ⟨tokens, 6⟩ ∧
      parse text = .error ⟨.argumentEnd (some (.ident "b")), 5⟩ ∧
      (∃ text' lexed e, tokenize text' = .ok lexed ∧ parse text' = .ok e ∧
        [.ident "f", .openParen, .ident "a"] <+: lexed.tokens.map Placed.token) ∧
      ∀ (lexed : Lexed) (more : List Token),
        lexed.tokens.map Placed.token =
          [.ident "f", .openParen, .ident "a"] ++ .ident "b" :: more →
        ∀ e, lexed.parse ≠ .ok e := by
  obtain ⟨viable, dead⟩ := (parse_error_at_first tokenize_text filled_text parse_unclosed nofun).2
    [⟨.ident "f", 1⟩, ⟨.openParen, 2⟩, ⟨.ident "a", 3⟩] [⟨.ident "b", 5⟩] rfl rfl
  exact ⟨tokenize_text, parse_unclosed, viable, fun lexed more same => dead lexed _ same rfl⟩

end Unclosed

end RuleLint.Rule
