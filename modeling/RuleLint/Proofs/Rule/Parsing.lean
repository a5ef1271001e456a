import RuleLint.Proofs.Rule.Grammar

/-!
# The parser accepts the grammar

`parse` gives the expression that the grammar derives from the tokens of a text, and no text has two
(`parse_of_tokenize`, `Derives.level_unique`). What a reader gives is derivable by recursion on the
readers themselves (`Meets`). That all derivable phrases are read is an induction on the derivation:
how much of a chain or a selection is read depends on what comes after it, so `Phrase.ReadFrom` says
that it is read together with whatever it goes on with.
-/

namespace RuleLint.Rule

variable {α β : Type} {p q : α × List Placed → Prop}

/-! ## What readers give -/

def Meets (P : α → List Placed → Prop) :
    Except Diagnostic { read : α × List Placed // p read } → Prop
  | .ok ⟨(a, rest), _⟩ => P a rest
  | .error d => d.fault.kind = .malformed

theorem Meets.bind {q : β × List Placed → Prop} {P : α → List Placed → Prop}
    {Q : β → List Placed → Prop} {x : Except Diagnostic { read : α × List Placed // p read }}
    {f : { read : α × List Placed // p read } →
      Except Diagnostic { read : β × List Placed // q read }}
    (first : Meets P x) (next : ∀ a rest fits, P a rest → Meets Q (f ⟨(a, rest), fits⟩)) :
    Meets Q (x >>= f) := by
  match x with
  | .ok ⟨(a, rest), fits⟩ => exact next a rest fits first
  | .error d => exact first

theorem Meets.mono {P Q : α → List Placed → Prop}
    {x : Except Diagnostic { read : α × List Placed // p read }} (meets : Meets P x)
    (imp : ∀ a rest, P a rest → Q a rest) : Meets Q x := by
  match x with
  | .ok ⟨(a, rest), _⟩ => exact imp a rest meets
  | .error _ => exact meets

def Reads (nesting : Nesting) (n : Nat) (ts : List Placed) (phrase : α → Phrase) (a : α)
    (rest : List Placed) : Prop :=
  ∃ front, ts = front ++ rest ∧ Derives nesting n front (phrase a)

variable {nesting : Nesting} {stop : Nat}

mutual

theorem readLevel_meets {n k depth : Nat} (ts : List Placed) (called : nesting.emptyCall = 1)
    (level : k ≤ BinOp.levels) (fits : n + depth = nesting.limit) :
    Meets (Reads nesting n ts (.level k)) (readLevel stop k depth ts) := by
  rw [readLevel]
  split
  · rename_i lower
    refine (readLevel_meets ts called lower fits).bind ?_
    rintro first rest shorter ⟨front, rfl, operand⟩
    refine (readChain_meets rest called lower fits (.operand lower operand)).bind ?_
    rintro e rest' le ⟨front', i, rfl, chain⟩
    exact ⟨front ++ front', by simp, .chain chain⟩
  · rename_i upper
    obtain rfl : k = BinOp.levels := by omega
    exact (readUnary_meets ts called fits).mono fun e rest ⟨front, h, operand⟩ =>
      ⟨front, h, .unary operand⟩
termination_by (ts.length, 3 + (BinOp.levels - k))

theorem readChain_meets {n k i depth : Nat} (ts : List Placed) (called : nesting.emptyCall = 1)
    (lower : k < BinOp.levels) (fits : n + i + depth = nesting.limit) {before : List Placed}
    {left : Expr} (chain : Derives nesting n before (.chain k i left)) :
    Meets (fun e rest => ∃ front j, ts = front ++ rest ∧
      Derives nesting n (before ++ front) (.chain k j e)) (readChain stop k depth left ts) := by
  rw [readChain.eq_def]
  split
  · rename_i op column rest
    split
    · rename_i level
      split
      · rfl
      · rename_i depth
        refine (readLevel_meets (n := n + (i + 1)) rest called lower (by omega)).bind ?_
        rintro right rest₁ shorter ⟨front, rfl, operand⟩
        have extended : Derives nesting n (before ++ ⟨.op op, column⟩ :: front)
            (.chain k (i + 1) (.binary op left right)) := .operator chain level (by omega) operand
        refine (readChain_meets rest₁ called lower (by omega) extended).bind ?_
        rintro e rest₂ le ⟨front', j, rfl, whole⟩
        exact ⟨⟨.op op, column⟩ :: (front ++ front'), j, by simp, by simpa using whole⟩
    · exact ⟨[], i, rfl, by simpa using chain⟩
  · exact ⟨[], i, rfl, by simpa using chain⟩
termination_by (ts.length, 0)

theorem readUnary_meets {n depth : Nat} (ts : List Placed) (called : nesting.emptyCall = 1)
    (fits : n + depth = nesting.limit) :
    Meets (Reads nesting n ts .unary) (readUnary stop depth ts) := by
  match ts with
  | [] =>
      rw [readUnary]
      rfl
  | ⟨token, column⟩ :: rest =>
      rw [readUnary]
      split
      · rename_i op signs
        split
        · rfl
        · refine (readUnary_meets (n := n + 1) rest called (by omega)).bind ?_
          rintro e rest' shorter ⟨front, rfl, operand⟩
          exact ⟨⟨token, column⟩ :: front, rfl, .sign signs (by omega) operand⟩
      · exact (readSelection_meets _ called fits).mono fun e rest ⟨front, i, h, selected⟩ =>
          ⟨front, h, .selection selected⟩
termination_by (ts.length, 2)

theorem readSelection_meets {n depth : Nat} (ts : List Placed) (called : nesting.emptyCall = 1)
    (fits : n + depth = nesting.limit) :
    Meets (fun e rest => ∃ front i, ts = front ++ rest ∧ Derives nesting n front (.selection i e))
      (readSelection stop depth ts) := by
  rw [readSelection]
  refine (readPrimary_meets ts called fits).bind ?_
  rintro first rest shorter ⟨front, rfl, primary⟩
  refine (readMembers_meets rest (i := 0) fits (.primary primary)).bind ?_
  rintro e rest' le ⟨front', i, rfl, selected⟩
  exact ⟨front ++ front', i, by simp, selected⟩
termination_by (ts.length, 1)

theorem readMembers_meets {n i depth : Nat} (ts : List Placed)
    (fits : n + i + depth = nesting.limit) {before : List Placed} {target : Expr}
    (selected : Derives nesting n before (.selection i target)) :
    Meets (fun e rest => ∃ front j, ts = front ++ rest ∧
      Derives nesting n (before ++ front) (.selection j e)) (readMembers stop depth target ts) := by
  rw [readMembers.eq_def]
  split
  · rename_i column rest
    split
    · rfl
    · split
      · rename_i name column' rest₁
        have extended : Derives nesting n (before ++ [⟨.dot, column⟩, ⟨.ident name, column'⟩])
            (.selection (i + 1) (.member target name)) := .member selected (by omega)
        refine (readMembers_meets rest₁ (by omega) extended).bind ?_
        rintro e rest₂ le ⟨front, j, rfl, whole⟩
        exact ⟨⟨.dot, column⟩ :: ⟨.ident name, column'⟩ :: front, j, by simp, by simpa using whole⟩
      · rfl
  · rfl
  · exact ⟨[], i, rfl, by simpa using selected⟩
termination_by (ts.length, 0)

theorem readPrimary_meets {n depth : Nat} (ts : List Placed) (called : nesting.emptyCall = 1)
    (fits : n + depth = nesting.limit) :
    Meets (Reads nesting n ts .primary) (readPrimary stop depth ts) := by
  rw [readPrimary.eq_def]
  -- The four kinds of literals, then parentheses, a call and a name.
  split
  · exact ⟨[_], rfl, .literal rfl⟩
  · exact ⟨[_], rfl, .literal rfl⟩
  · exact ⟨[_], rfl, .literal rfl⟩
  · exact ⟨[_], rfl, .literal rfl⟩
  · rename_i column rest
    split
    · rfl
    · refine (readLevel_meets (n := n + 1) rest called (Nat.zero_le _) (by omega)).bind ?_
      rintro e rest₁ shorter ⟨front, rfl, inside⟩
      dsimp only
      split
      · rename_i column' rest₂
        exact ⟨⟨.openParen, column⟩ :: (front ++ [⟨.closeParen, column'⟩]), by simp,
          .parens (by omega) inside⟩
      · rfl
  · rename_i name column column' rest
    split
    · rfl
    · split
      · rename_i column'' rest'
        exact ⟨[⟨.ident name, column⟩, ⟨.openParen, column'⟩, ⟨.closeParen, column''⟩], rfl,
          .emptyCall (by omega)⟩
      · refine (readArguments_meets (n := n + 1) rest called (by omega)).bind ?_
        rintro args rest' shorter ⟨front, column'', rfl, inside⟩
        exact ⟨⟨.ident name, column⟩ :: ⟨.openParen, column'⟩ ::
          (front ++ [⟨.closeParen, column''⟩]), by simp, .call (by omega) inside⟩
  · exact ⟨[_], rfl, .ident⟩
  · rfl
termination_by (ts.length, 0)

theorem readArguments_meets {n depth : Nat} (ts : List Placed) (called : nesting.emptyCall = 1)
    (fits : n + depth = nesting.limit) :
    Meets (fun args rest => ∃ front column, ts = front ++ ⟨.closeParen, column⟩ :: rest ∧
      Derives nesting n front (.arguments args)) (readArguments stop depth ts) := by
  rw [readArguments]
  refine (readLevel_meets ts called (Nat.zero_le _) fits).bind ?_
  rintro arg rest shorter ⟨front, rfl, argument⟩
  dsimp only
  split
  · rename_i column rest₁
    refine (readArguments_meets rest₁ called fits).bind ?_
    rintro args rest₂ shorter₂ ⟨front', column', rfl, others⟩
    exact ⟨front ++ ⟨.comma, column⟩ :: front', column', by simp, .arguments argument others⟩
  · rename_i column rest₁
    exact ⟨front, column, rfl, .argument argument⟩
  · rfl
termination_by (ts.length, 4 + BinOp.levels)

end

/-! ## Every derivation is found -/

def Gives (result : Except Diagnostic { read : α × List Placed // p read }) (a : α)
    (rest : List Placed) : Prop :=
  ∃ fits, result = .ok ⟨(a, rest), fits⟩

theorem Gives.bind {q : β × List Placed → Prop} {a : α} {b : β} {rest rest' : List Placed}
    {x : Except Diagnostic { read : α × List Placed // p read }}
    {f : { read : α × List Placed // p read } →
      Except Diagnostic { read : β × List Placed // q read }}
    (first : Gives x a rest) (next : ∀ fits, Gives (f ⟨(a, rest), fits⟩) b rest') :
    Gives (x >>= f) b rest' := by
  obtain ⟨fits, rfl⟩ := first
  exact next fits

def Ends (k : Nat) (rest : List Placed) : Prop :=
  ∀ token, foundToken rest = some token →
    token ≠ .dot ∧ token ≠ .openParen ∧ ∀ op, token = .op op → op.level < k

theorem Ends.succ {k : Nat} {rest : List Placed} (ends : Ends k rest) : Ends (k + 1) rest := by
  intro token found
  obtain ⟨dot, openParen, looser⟩ := ends token found
  exact ⟨dot, openParen, fun op eq => Nat.lt_succ_of_lt (looser op eq)⟩

theorem ends_nil {k : Nat} : Ends k [] := nofun

theorem ends_op {k column : Nat} {op : BinOp} {rest : List Placed} (looser : op.level < k) :
    Ends k (⟨.op op, column⟩ :: rest) := by
  rintro token ⟨⟩
  refine ⟨nofun, nofun, fun op' eq => ?_⟩
  cases eq
  exact looser

theorem ends_comma {k column : Nat} {rest : List Placed} : Ends k (⟨.comma, column⟩ :: rest) := by
  rintro token ⟨⟩
  exact ⟨nofun, nofun, nofun⟩

theorem ends_closeParen {k column : Nat} {rest : List Placed} :
    Ends k (⟨.closeParen, column⟩ :: rest) := by
  rintro token ⟨⟩
  exact ⟨nofun, nofun, nofun⟩

/-- The phrase is read from the front of the tokens. Where it may go on, as a chain and a selection
may, what it goes on with is read too. -/
def Phrase.ReadFrom (stop depth : Nat) (ts : List Placed) : Phrase → Prop
  | level k e => ∀ rest, Ends k rest → Gives (readLevel stop k depth (ts ++ rest)) e rest
  | chain k i e =>
    i ≤ depth ∧ ∀ rest whole rest', Ends (k + 1) rest →
      Gives (readChain stop k (depth - i) e rest) whole rest' →
      Gives (readLevel stop k depth (ts ++ rest)) whole rest'
  | unary e =>
    ∀ rest, Ends BinOp.levels rest → Gives (readUnary stop depth (ts ++ rest)) e rest
  | selection i e =>
    i ≤ depth ∧ ∀ rest whole rest', Gives (readMembers stop (depth - i) e rest) whole rest' →
      Gives (readSelection stop depth (ts ++ rest)) whole rest'
  | primary e =>
    ∀ rest, foundToken rest ≠ some .openParen → Gives (readPrimary stop depth (ts ++ rest)) e rest
  | arguments args =>
    ∀ column rest, Gives (readArguments stop depth (ts ++ ⟨.closeParen, column⟩ :: rest)) args rest

theorem Ends.readChain {k depth : Nat} {e : Expr} {rest : List Placed} (ends : Ends k rest) :
    Gives (readChain stop k depth e rest) e rest := by
  rw [readChain.eq_def]
  split
  · rename_i op column rest
    have looser : op.level < k := (ends _ rfl).2.2 op rfl
    rw [if_neg (Nat.ne_of_lt looser)]
    exact ⟨_, rfl⟩
  · exact ⟨_, rfl⟩

theorem Ends.readMembers {k depth : Nat} {e : Expr} {rest : List Placed} (ends : Ends k rest) :
    Gives (readMembers stop depth e rest) e rest := by
  rw [readMembers.eq_def]
  split
  · exact absurd rfl (ends _ rfl).1
  · exact absurd rfl (ends _ rfl).2.1
  · exact ⟨_, rfl⟩

theorem Gives.foundToken_ne_openParen {depth : Nat} {target whole : Expr} {rest rest' : List Placed}
    (gives : Gives (readMembers stop depth target rest) whole rest') :
    foundToken rest ≠ some .openParen := by
  intro found
  match rest, found with
  | ⟨.openParen, column⟩ :: rest, rfl =>
      obtain ⟨fits, read⟩ := gives
      rw [readMembers] at read
      cases read

section

variable {depth column column' column'' : Nat} {rest : List Placed} {name : String}

theorem gives_literal {token : Token} {value : Literal} (writes : token.literal? = some value) :
    Gives (readPrimary stop depth (⟨token, column⟩ :: rest)) (.literal value column) rest := by
  cases token with
  | number _ | string _ | bool _ | null =>
      cases writes
      rw [readPrimary]
      exact ⟨_, rfl⟩
  | _ => cases writes

theorem gives_ident (closed : foundToken rest ≠ some .openParen) :
    Gives (readPrimary stop depth (⟨.ident name, column⟩ :: rest)) (.ident name column) rest := by
  rw [readPrimary]
  · exact ⟨_, rfl⟩
  · rintro column' rest' rfl
    exact closed rfl

theorem Gives.parens {ts : List Placed} {e : Expr}
    (inside : Gives (readLevel stop 0 depth ts) e (⟨.closeParen, column'⟩ :: rest)) :
    Gives (readPrimary stop (depth + 1) (⟨.openParen, column⟩ :: ts)) e rest := by
  rw [readPrimary]
  exact inside.bind fun _ => ⟨_, rfl⟩

theorem gives_emptyCall :
    Gives (readPrimary stop (depth + 1)
      (⟨.ident name, column⟩ :: ⟨.openParen, column'⟩ :: ⟨.closeParen, column''⟩ :: rest))
      (.call name [] column) rest := by
  rw [readPrimary]
  exact ⟨_, rfl⟩

theorem Gives.call {ts : List Placed} {args : List Expr}
    (inside : Gives (readArguments stop depth ts) args rest)
    (filled : foundToken ts ≠ some .closeParen) :
    Gives (readPrimary stop (depth + 1) (⟨.ident name, column⟩ :: ⟨.openParen, column'⟩ :: ts))
      (.call name args column) rest := by
  rw [readPrimary]
  · exact inside.bind fun _ => ⟨_, rfl⟩
  · rintro column rest' rfl
    exact filled rfl

end

theorem Derives.foundToken_ne_closeParen {n : Nat} {ts rest : List Placed} {args : List Expr}
    (derives : Derives nesting n ts (.arguments args)) :
    foundToken (ts ++ rest) ≠ some .closeParen := by
  obtain ⟨t, ts, rfl, starts⟩ := derives.starts
  exact fun found => starts (Option.some.inj found)

theorem Derives.readFrom {n : Nat} {ts : List Placed} {phrase : Phrase}
    (derives : Derives nesting n ts phrase) (called : nesting.emptyCall = 1) (stop : Nat) :
    ∀ depth, n + depth = nesting.limit → phrase.ReadFrom stop depth ts := by
  induction derives with
  | operand lower _ ih =>
      intro depth fits
      refine ⟨Nat.zero_le _, fun rest whole rest' ends chain => ?_⟩
      rw [readLevel, if_pos lower]
      exact (ih depth fits rest ends).bind fun _ => chain.bind fun _ => ⟨_, rfl⟩
  | @operator n k i column ts ts' op left right before level deeper after ih ih' =>
      intro depth fits
      obtain ⟨d, rfl⟩ : ∃ d, depth = i + 1 + d := ⟨depth - (i + 1), by omega⟩
      refine ⟨by omega, fun rest whole rest' ends chain => ?_⟩
      -- The chain before the operator is read together with the operator and what follows it.
      obtain ⟨-, reads⟩ := ih (i + 1 + d) fits
      rw [List.append_assoc]
      refine reads _ _ _ (ends_op (by omega)) ?_
      rw [show i + 1 + d - i = d + 1 by omega, List.cons_append, readChain, if_pos level]
      rw [show i + 1 + d - (i + 1) = d by omega] at chain
      refine (ih' d (by omega) rest ends).bind fun _ => chain.bind fun _ => ⟨_, rfl⟩
  | chain _ ih =>
      intro depth fits rest ends
      exact (ih depth fits).2 rest _ _ ends.succ ends.readChain
  | unary _ ih =>
      intro depth fits rest ends
      rw [readLevel, if_neg (Nat.lt_irrefl _)]
      exact ih depth fits rest ends
  | @sign n column ts token op e signs deeper _ ih =>
      intro depth fits rest ends
      obtain ⟨d, rfl⟩ : ∃ d, depth = d + 1 := ⟨depth - 1, by omega⟩
      rw [List.cons_append, readUnary, signs]
      exact (ih d (by omega) rest ends).bind fun _ => ⟨_, rfl⟩
  | selection selected ih =>
      intro depth fits rest ends
      -- Only the first token tells a selection from a signed operand.
      obtain ⟨⟨token, column⟩, ts, rfl, -, unsigned⟩ := selected.starts
      rw [List.cons_append, readUnary, unsigned]
      exact (ih depth fits).2 rest _ _ ends.readMembers
  | primary _ ih =>
      intro depth fits
      refine ⟨Nat.zero_le _, fun rest whole rest' members => ?_⟩
      rw [readSelection]
      exact (ih depth fits rest members.foundToken_ne_openParen).bind fun _ =>
        members.bind fun _ => ⟨_, rfl⟩
  | @member n i column column' ts name target _ deeper ih =>
      intro depth fits
      obtain ⟨d, rfl⟩ : ∃ d, depth = i + 1 + d := ⟨depth - (i + 1), by omega⟩
      refine ⟨by omega, fun rest whole rest' members => ?_⟩
      obtain ⟨-, reads⟩ := ih (i + 1 + d) fits
      rw [List.append_assoc]
      refine reads _ _ _ ?_
      rw [show i + 1 + d - i = d + 1 by omega, List.cons_append, List.cons_append, readMembers]
      rw [show i + 1 + d - (i + 1) = d by omega] at members
      exact members.bind fun _ => ⟨_, rfl⟩
  | literal writes => exact fun _ _ _ _ => gives_literal writes
  | ident => exact fun _ _ _ closed => gives_ident closed
  | parens deeper _ ih =>
      intro depth fits rest _
      obtain ⟨d, rfl⟩ : ∃ d, depth = d + 1 := ⟨depth - 1, by omega⟩
      rw [List.cons_append, List.append_assoc]
      exact (ih d (by omega) _ ends_closeParen).parens
  | emptyCall deeper =>
      intro depth fits rest _
      obtain ⟨d, rfl⟩ : ∃ d, depth = d + 1 := ⟨depth - 1, by omega⟩
      exact gives_emptyCall
  | call deeper inside ih =>
      intro depth fits rest _
      obtain ⟨d, rfl⟩ : ∃ d, depth = d + 1 := ⟨depth - 1, by omega⟩
      rw [List.cons_append, List.cons_append, List.append_assoc]
      exact (ih d (by omega) _ rest).call inside.foundToken_ne_closeParen
  | argument _ ih =>
      intro depth fits column rest
      rw [readArguments]
      exact (ih depth fits _ ends_closeParen).bind fun _ => ⟨_, rfl⟩
  | arguments _ _ ih ih' =>
      intro depth fits column rest
      rw [readArguments, List.append_assoc]
      exact (ih depth fits _ ends_comma).bind fun _ =>
        (ih' depth fits column rest).bind fun _ => ⟨_, rfl⟩

/-! ## Splitting into tokens -/

theorem scan_nil (column : Nat) : scan column [] = .ok [] := by
  rw [scan.eq_def]

theorem scan_blank {column : Nat} {c : Char} {cs : List Char} (blank : Text.isBlank c) :
    scan column (c :: cs) = scan (column + 1) cs := by
  rw [scan.eq_def]
  exact if_pos blank

theorem scan_cons {column : Nat} {c : Char} {cs : List Char} {lexeme : Lexeme (c :: cs)}
    (filled : Text.isBlank c = false) (read : Lexeme.read c cs = .ok lexeme) :
    scan column (c :: cs) =
      (⟨lexeme.token, column⟩ :: ·) <$> scan (column + lexeme.text.length) lexeme.rest := by
  rw [scan.eq_def]
  simp only [filled, read, Bool.false_eq_true, if_false]
  exact (map_eq_pure_bind _ _).symm

theorem scan_cons_ok {column width : Nat} {c : Char} {cs rest : List Char} {token : Token}
    {tokens : List Placed} {lexeme : Lexeme (c :: cs)} (filled : Text.isBlank c = false)
    (read : Lexeme.read c cs = .ok lexeme) (isToken : lexeme.token = token)
    (covers : lexeme.text.length = width) (leaves : lexeme.rest = rest)
    (others : scan (column + width) rest = .ok tokens) :
    scan column (c :: cs) = .ok (⟨token, column⟩ :: tokens) := by
  rw [scan_cons filled read, isToken, covers, leaves, others]
  rfl

theorem scan_blanks {column : Nat} {cs : List Char} (blank : cs.all Text.isBlank) :
    scan column cs = .ok [] := by
  induction cs generalizing column with
  | nil => exact scan_nil column
  | cons c cs ih =>
      rw [List.all_cons, Bool.and_eq_true] at blank
      rw [scan_blank blank.1]
      exact ih blank.2

/-! ## What parsing gives -/

theorem Derives.level_unique {n k : Nat} {ts : List Placed} {e e' : Expr}
    (derives : Derives nesting n ts (.level k e)) (derives' : Derives nesting n ts (.level k e'))
    (called : nesting.emptyCall = 1) (fits : n ≤ nesting.limit) : e = e' := by
  obtain ⟨depth, eq⟩ := Nat.exists_eq_add_of_le fits
  obtain ⟨_, read⟩ := derives.readFrom called 0 depth eq.symm [] ends_nil
  obtain ⟨_, read'⟩ := derives'.readFrom called 0 depth eq.symm [] ends_nil
  have same := read.symm.trans read'
  simp only [Except.ok.injEq, Subtype.mk.injEq, Prod.mk.injEq, and_true] at same
  exact same

theorem Lexed.parse_sound (lexed : Lexed) :
    (∀ e, lexed.parse = .ok e → Derives .standard 0 lexed.tokens (.level 0 e)) ∧
      ∀ d, lexed.parse = .error d → d.fault.kind = .malformed := by
  have meets : Meets (Reads .standard 0 lexed.tokens (.level 0))
      (readLevel lexed.stop 0 maxDepth lexed.tokens) :=
    readLevel_meets _ rfl (Nat.zero_le _) (Nat.zero_add _)
  cases read : readLevel lexed.stop 0 maxDepth lexed.tokens with
  | error d =>
      rw [read] at meets
      rw [Lexed.parse, read]
      exact ⟨nofun, fun d' same => by cases same; exact meets⟩
  | ok result =>
      obtain ⟨⟨e, rest⟩, _⟩ := result
      rw [read] at meets
      obtain ⟨front, whole, derives⟩ := meets
      rw [Lexed.parse, read]
      cases rest with
      | nil =>
          rw [List.append_nil] at whole
          exact ⟨fun e' same => by cases same; exact whole ▸ derives, fun _ same => by cases same⟩
      | cons t rest => exact ⟨nofun, fun d' same => by cases same; rfl⟩

theorem Lexed.parse_eq_ok_iff (lexed : Lexed) (e : Expr) :
    lexed.parse = .ok e ↔ Derives .standard 0 lexed.tokens (.level 0 e) := by
  refine ⟨lexed.parse_sound.1 e, fun derives => ?_⟩
  have gives := derives.readFrom rfl lexed.stop maxDepth (Nat.zero_add _) [] ends_nil
  rw [List.append_nil] at gives
  obtain ⟨_, read⟩ := gives
  rw [Lexed.parse, read]
  rfl

theorem Derives.ne_nil {n : Nat} {ts : List Placed} {phrase : Phrase}
    (derives : Derives nesting n ts phrase) : ts ≠ [] := by
  obtain ⟨t, rest, rfl, -⟩ := derives.starts
  exact nofun

theorem parse_eq_of_tokenize {input : String} {lexed : Lexed} (tokens : tokenize input = .ok lexed)
    (filled : ¬ input.toList.all Text.isBlank) : parse input = lexed.parse := by
  rw [parse, if_neg filled, tokens]
  exact pure_bind lexed Lexed.parse

theorem tokens_eq_nil_of_blank {input : String} {lexed : Lexed}
    (tokens : tokenize input = .ok lexed) (blank : input.toList.all Text.isBlank) :
    lexed.tokens = [] := by
  rw [tokenize, scan_blanks blank] at tokens
  cases tokens
  rfl

theorem exists_tokenize_of_parse {input : String} {e : Expr} (parsed : parse input = .ok e) :
    ∃ lexed, tokenize input = .ok lexed := by
  rw [parse] at parsed
  split at parsed
  · cases parsed
  · cases tokens : tokenize input with
    | ok lexed => exact ⟨lexed, rfl⟩
    | error d =>
        rw [tokens] at parsed
        cases parsed

theorem parse_eq_ok_iff {input : String} {lexed : Lexed} (tokens : tokenize input = .ok lexed)
    (e : Expr) : parse input = .ok e ↔ Derives .standard 0 lexed.tokens (.level 0 e) := by
  by_cases blank : input.toList.all Text.isBlank
  · rw [parse, if_pos blank]
    exact ⟨nofun, fun derives => (derives.ne_nil (tokens_eq_nil_of_blank tokens blank)).elim⟩
  · rw [parse_eq_of_tokenize tokens blank]
    exact lexed.parse_eq_ok_iff e

theorem malformed_of_parse {input : String} {lexed : Lexed} {d : Diagnostic}
    (tokens : tokenize input = .ok lexed) (refused : parse input = .error d) :
    d.fault.kind = .malformed := by
  by_cases blank : input.toList.all Text.isBlank
  · rw [parse, if_pos blank] at refused
    cases refused
    rfl
  · rw [parse_eq_of_tokenize tokens blank] at refused
    exact lexed.parse_sound.2 d refused

/-- A text that splits into tokens is parsed to the expression that the grammar derives from them,
and is malformed where the grammar derives none. -/
theorem parse_of_tokenize {input : String} {lexed : Lexed} (tokens : tokenize input = .ok lexed) :
    (∀ e, parse input = .ok e ↔ Derives .standard 0 lexed.tokens (.level 0 e)) ∧
      ((∀ e, ¬ Derives .standard 0 lexed.tokens (.level 0 e)) →
        ∃ d, parse input = .error d ∧ d.fault.kind = .malformed) := by
  refine ⟨parse_eq_ok_iff tokens, fun underivable => ?_⟩
  cases result : parse input with
  | ok e => exact (underivable e ((parse_eq_ok_iff tokens e).mp result)).elim
  | error d => exact ⟨d, rfl, malformed_of_parse tokens result⟩

namespace Product

def text : String :=
  .ofList ['-', 'f', '(', 'a', '.', 'b', ')', '*', '(', 'c', '+', 'd', ')']

def left : List Placed :=
  [⟨.op .sub, 1⟩, ⟨.ident "f", 2⟩, ⟨.openParen, 3⟩, ⟨.ident "a", 4⟩, ⟨.dot, 5⟩, ⟨.ident "b", 6⟩,
    ⟨.closeParen, 7⟩]

def right : List Placed :=
  [⟨.openParen, 9⟩, ⟨.ident "c", 10⟩, ⟨.op .add, 11⟩, ⟨.ident "d", 12⟩, ⟨.closeParen, 13⟩]

def negative : Expr := .unary .neg (.call "f" [.member (.ident "a" 4) "b"] 2) 1

def sum : Expr := .binary .add (.ident "c" 10) (.ident "d" 12)

theorem derives_left : Derives .standard 0 left (.level 6 negative) := by
  have member : Derives .standard 2 ([⟨.ident "a", 4⟩] ++ [⟨.dot, 5⟩, ⟨.ident "b", 6⟩])
      (.selection 1 (.member (.ident "a" 4) "b")) := .member (.primary .ident) (by decide)
  have call : Derives .standard 1
      (⟨.ident "f", 2⟩ :: ⟨.openParen, 3⟩ ::
        (([⟨.ident "a", 4⟩] ++ [⟨.dot, 5⟩, ⟨.ident "b", 6⟩]) ++ [⟨.closeParen, 7⟩]))
      (.primary (.call "f" [.member (.ident "a" 4) "b"] 2)) :=
    .call (by decide) (.argument (member.level_of_selection (Nat.zero_le _)))
  exact .unary (.sign rfl (by decide) (.selection (.primary call)))

theorem derives_right : Derives .standard 1 right (.level 6 sum) := by
  have chain : Derives .standard 2 ([⟨.ident "c", 10⟩] ++ ⟨.op .add, 11⟩ :: [⟨.ident "d", 12⟩])
      (.chain 4 1 sum) :=
    .operator (.operand (by decide) (Derives.ident.level_of_primary (by decide))) rfl (by decide)
      (Derives.ident.level_of_primary (by decide))
  have inside := (Derives.chain chain).loosen (Nat.zero_le _) (by decide)
  exact (Derives.parens (by decide) inside).level_of_primary (Nat.le_refl _)

theorem parse_text :
    tokenize text = .ok ⟨left ++ ⟨.op .mul, 8⟩ :: right, 14⟩ ∧
      parse text = .ok (.binary .mul negative sum) := by
  have tokens : tokenize text = .ok ⟨left ++ ⟨.op .mul, 8⟩ :: right, 14⟩ := by
    have split : scan 1 text.toList = .ok (left ++ ⟨.op .mul, 8⟩ :: right) := by
      rw [text, String.toList_ofList]
      repeat refine scan_cons_ok rfl rfl rfl rfl rfl ?_
      exact scan_nil _
    rw [tokenize, split]
    rfl
  have chain : Derives .standard 0 (left ++ ⟨.op .mul, 8⟩ :: right)
      (.chain 5 1 (.binary .mul negative sum)) :=
    .operator (.operand (by decide) derives_left) rfl (by decide) derives_right
  have whole := (Derives.chain chain).loosen (Nat.zero_le _) (by decide)
  exact ⟨tokens, ((parse_of_tokenize tokens).1 _).mpr whole⟩

end Product

/-! ## A call without arguments at the deepest level -/

theorem readLevel_eq_error {k depth : Nat} {ts : List Placed} {d : Diagnostic}
    (refused : readUnary stop depth ts = .error d) (bound : k ≤ BinOp.levels) :
    readLevel stop k depth ts = .error d := by
  obtain ⟨i, eq⟩ := Nat.exists_eq_add_of_le bound
  induction i generalizing k with
  | zero => rw [readLevel, if_neg (by omega), refused]
  | succ i ih =>
      rw [readLevel, if_pos (by omega), ih (by omega) (by omega)]
      rfl

namespace DeepCall

def text : Nat → List Char
  | 0 => ['f', '(', ')']
  | marks + 1 => '!' :: text marks

def tokens (column : Nat) : Nat → List Placed
  | 0 => [⟨.ident "f", column⟩, ⟨.openParen, column + 1⟩, ⟨.closeParen, column + 2⟩]
  | marks + 1 => ⟨.not, column⟩ :: tokens (column + 1) marks

def tree (column : Nat) : Nat → Expr
  | 0 => .call "f" [] column
  | marks + 1 => .unary .not (tree (column + 1) marks) column

theorem read_text (marks : Nat) :
    Lexeme.read '!' (text marks) = .ok (.one .not '!' (text marks)) := by
  cases marks with
  | zero => rfl
  | succ marks => rfl

theorem scan_text (column marks : Nat) : scan column (text marks) = .ok (tokens column marks) := by
  induction marks generalizing column with
  | zero =>
      refine scan_cons_ok rfl rfl rfl rfl rfl ?_
      refine scan_cons_ok rfl rfl rfl rfl rfl ?_
      refine scan_cons_ok rfl rfl rfl rfl rfl ?_
      exact scan_nil _
  | succ marks ih =>
      exact scan_cons_ok rfl (read_text marks) rfl rfl rfl (ih (column + 1))

theorem derives {limit n : Nat} (column marks : Nat) (fits : n + marks = limit) :
    Derives ⟨limit, 0⟩ n (tokens column marks) (.unary (tree column marks)) := by
  induction marks generalizing n column with
  | zero => exact .selection (.primary (.emptyCall (Nat.le_of_eq fits)))
  | succ marks ih => exact .sign rfl (by simp only; omega) (ih (column + 1) (by omega))

theorem readUnary_tokens (stop column marks : Nat) :
    ∃ d, readUnary stop marks (tokens column marks) = .error d := by
  induction marks generalizing column with
  | zero =>
      rw [tokens, readUnary]
      change ∃ d, readSelection _ _ _ = .error d
      rw [readSelection, readPrimary]
      exact ⟨_, rfl⟩
  | succ marks ih =>
      obtain ⟨d, refused⟩ := ih (column + 1)
      rw [tokens, readUnary]
      change ∃ d, (readUnary _ _ _ >>= _) = .error d
      rw [refused]
      exact ⟨d, rfl⟩

/-- If a call without arguments took up no level, a text that is refused would be derivable. -/
theorem parse_refuses :
    tokenize (.ofList (text maxDepth)) =
        .ok ⟨tokens 1 maxDepth, (String.ofList (text maxDepth)).length + 1⟩ ∧
      ¬ (String.ofList (text maxDepth)).toList.all Text.isBlank ∧
      Derives ⟨maxDepth, 0⟩ 0 (tokens 1 maxDepth) (.level 0 (tree 1 maxDepth)) ∧
      ∀ e, parse (.ofList (text maxDepth)) ≠ .ok e := by
  have split : tokenize (.ofList (text maxDepth)) =
      .ok ⟨tokens 1 maxDepth, (String.ofList (text maxDepth)).length + 1⟩ := by
    rw [tokenize, String.toList_ofList, scan_text]
    rfl
  have filled : ¬ (String.ofList (text maxDepth)).toList.all Text.isBlank := by
    rw [String.toList_ofList]
    exact Bool.false_ne_true
  refine ⟨split, filled, (derives 1 maxDepth (Nat.zero_add _)).level_of_unary (Nat.zero_le _), ?_⟩
  obtain ⟨d, eq⟩ := readUnary_tokens ((String.ofList (text maxDepth)).length + 1) 1 maxDepth
  intro e parsed
  rw [parse_eq_of_tokenize split filled, Lexed.parse,
    readLevel_eq_error eq (Nat.zero_le _)] at parsed
  cases parsed

end DeepCall

end RuleLint.Rule
