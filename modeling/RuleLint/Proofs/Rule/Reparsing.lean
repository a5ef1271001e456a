import RuleLint.Proofs.Rule.Deepening
import RuleLint.Proofs.Rule.Printing

/-!
# Parsing what was printed

The tokens that an expression is printed with make it up again, up to columns, by induction on the
expression: whatever stands in a place with parentheses around it where it needs them is a phrase of
that place (`Expr.Recovered`). So a printed text is parsed to the expression it prints, unless that
needs more nesting levels than there are (`parse_of_prints`).
-/

namespace RuleLint.Rule

/-! ## Levels and columns -/

namespace Expr

def points : Expr → Nat
  | member target _ => target.points + 1
  | _ => 0

def operators (k : Nat) : Expr → Nat
  | binary op left _ => if op.level = k then left.operators k + 1 else 0
  | _ => 0

end Expr

def deepened (needed : Bool) (levels : Nat) : Nat := if needed then levels + 1 else levels

mutual

/-- The nesting levels that the printed expression uses. -/
def Expr.levels : Expr → Nat
  | .literal _ _ | .ident _ _ => 0
  | .member target _ =>
    max (deepened (target.binding < Expr.target) target.levels) (target.points + 1)
  | .call _ args _ => Expr.argumentLevels args + 1
  | .unary _ operand _ => deepened (operand.binding < BinOp.levels) operand.levels + 1
  | .binary op left right =>
    max (deepened (left.binding < op.level) left.levels)
      (left.operators op.level + 1 + deepened (right.binding < op.level + 1) right.levels)

def Expr.argumentLevels : List Expr → Nat
  | [] => 0
  | arg :: args => max arg.levels (Expr.argumentLevels args)

end

mutual

def Expr.bare : Expr → Expr
  | .literal value _ => .literal value 0
  | .ident name _ => .ident name 0
  | .member target name => .member target.bare name
  | .call name args _ => .call name (Expr.bareArguments args) 0
  | .unary op operand _ => .unary op operand.bare 0
  | .binary op left right => .binary op left.bare right.bare

def Expr.bareArguments : List Expr → List Expr
  | [] => []
  | arg :: args => arg.bare :: Expr.bareArguments args

end

/-! ## Printed expressions are derived -/

variable {nesting : Nesting}

def Expr.phrase : Expr → Expr → Phrase
  | .literal _ _, e | .ident _ _, e | .call _ _ _, e => .primary e
  | .member target _, e => .selection (target.points + 1) e
  | .unary _ _ _, e => .unary e
  | .binary op left _, e => .chain op.level (left.operators op.level + 1) e

theorem Derives.unary_of_phrase {n : Nat} {ts : List Placed} {e e' : Expr}
    (derives : Derives nesting n ts (e.phrase e')) (bound : BinOp.levels ≤ e.binding) :
    Derives nesting n ts (.unary e') := by
  cases e with
  | literal | ident | call => exact .selection (.primary derives)
  | member => exact .selection derives
  | unary => exact derives
  | binary op => exact absurd bound op.level_lt_levels.not_ge

theorem Derives.level_of_phrase {n k : Nat} {ts : List Placed} {e e' : Expr}
    (derives : Derives nesting n ts (e.phrase e')) (bound : k ≤ e.binding) (le : k ≤ BinOp.levels) :
    Derives nesting n ts (.level k e') := by
  rcases Nat.lt_or_ge e.binding BinOp.levels with lower | tight
  · cases e with
    | binary op => exact (Derives.chain derives).loosen bound op.level_lt_levels.le
    | literal value => cases value <;> exact absurd lower (by simp [Expr.binding])
    | _ => exact absurd lower (by simp [Expr.binding])
  · exact (derives.unary_of_phrase tight).level_of_unary le

theorem exists_between {first last : Token} {tokens : List Token} {ts : List Placed}
    (printed : ts.map Placed.token = first :: (tokens ++ [last])) :
    ∃ column inside column', ts = ⟨first, column⟩ :: (inside ++ [⟨last, column'⟩]) ∧
      inside.map Placed.token = tokens := by
  obtain ⟨⟨_, column⟩, _, rfl, rfl, after⟩ := List.map_eq_cons_iff.mp printed
  obtain ⟨inside, _, rfl, within, closes⟩ := List.map_eq_append_iff.mp after
  obtain ⟨⟨_, column'⟩, rfl, rfl⟩ := List.map_eq_singleton_iff.mp closes
  exact ⟨column, inside, column', rfl, within⟩

/-- Where levels suffice, the tokens of the expression make it up again, but for columns. -/
def Expr.Recovered (nesting : Nesting) (e : Expr) : Prop :=
  ∀ (n : Nat) (ts : List Placed), ts.map Placed.token = e.tokens → n + e.levels ≤ nesting.limit →
    ∃ e', e'.bare = e.bare ∧ Derives nesting n ts (e.phrase e')

theorem Expr.Recovered.parenthesized {e : Expr} (reads : e.Recovered nesting) (k : Nat) {n : Nat}
    {ts : List Placed}
    (printed : ts.map Placed.token = Rule.parenthesized (e.binding < k) e.tokens)
    (fits : n + deepened (e.binding < k) e.levels ≤ nesting.limit) :
    ∃ e', e'.bare = e.bare ∧ (e.binding < k ∧ Derives nesting n ts (.primary e') ∨
      k ≤ e.binding ∧ Derives nesting n ts (e.phrase e')) := by
  by_cases needed : e.binding < k
  · rw [Rule.parenthesized, if_pos (decide_eq_true needed)] at printed
    rw [deepened, if_pos (decide_eq_true needed)] at fits
    obtain ⟨column, inside, column', rfl, within⟩ := exists_between printed
    obtain ⟨e', same, derives⟩ := reads (n + 1) inside within (by omega)
    exact ⟨e', same, .inl ⟨needed, .parens (by omega)
      (derives.level_of_phrase (Nat.zero_le _) (Nat.zero_le _))⟩⟩
  · rw [Rule.parenthesized, if_neg (by simpa using needed)] at printed
    rw [deepened, if_neg (by simpa using needed)] at fits
    obtain ⟨e', same, derives⟩ := reads n ts printed fits
    exact ⟨e', same, .inr ⟨Nat.le_of_not_lt needed, derives⟩⟩

section

variable {e : Expr} (reads : e.Recovered nesting) {n : Nat} {ts : List Placed}

include reads

theorem Expr.Recovered.unary
    (printed : ts.map Placed.token = Rule.parenthesized (e.binding < BinOp.levels) e.tokens)
    (fits : n + deepened (e.binding < BinOp.levels) e.levels ≤ nesting.limit) :
    ∃ e', e'.bare = e.bare ∧ Derives nesting n ts (.unary e') := by
  obtain ⟨e', same, ⟨-, derives⟩ | ⟨bound, derives⟩⟩ :=
    reads.parenthesized BinOp.levels printed fits
  · exact ⟨e', same, .selection (.primary derives)⟩
  · exact ⟨e', same, derives.unary_of_phrase bound⟩

theorem Expr.Recovered.level {k : Nat} (le : k ≤ BinOp.levels)
    (printed : ts.map Placed.token = Rule.parenthesized (e.binding < k) e.tokens)
    (fits : n + deepened (e.binding < k) e.levels ≤ nesting.limit) :
    ∃ e', e'.bare = e.bare ∧ Derives nesting n ts (.level k e') := by
  obtain ⟨e', same, ⟨-, derives⟩ | ⟨bound, derives⟩⟩ := reads.parenthesized k printed fits
  · exact ⟨e', same, derives.level_of_primary le⟩
  · exact ⟨e', same, derives.level_of_phrase bound le⟩

theorem Expr.Recovered.chain {k : Nat} (lower : k < BinOp.levels)
    (printed : ts.map Placed.token = Rule.parenthesized (e.binding < k) e.tokens)
    (fits : n + deepened (e.binding < k) e.levels ≤ nesting.limit) :
    ∃ e', e'.bare = e.bare ∧ Derives nesting n ts (.chain k (e.operators k) e') := by
  have apart (other : e.binding ≠ k) : e.operators k = 0 := by
    cases e with
    | binary op => exact if_neg other
    | _ => rfl
  obtain ⟨e', same, ⟨looser, derives⟩ | ⟨bound, derives⟩⟩ := reads.parenthesized k printed fits
  · refine ⟨e', same, ?_⟩
    rw [apart looser.ne]
    exact .operand lower (derives.level_of_primary lower)
  · refine ⟨e', same, ?_⟩
    rcases bound.eq_or_lt with rfl | tighter
    · cases e with
      | binary op left right =>
          have own : Expr.operators op.level (.binary op left right) =
              left.operators op.level + 1 := if_pos rfl
          exact own ▸ derives
      | literal value => cases value <;> exact absurd lower (by simp [Expr.binding])
      | _ => exact absurd lower (by simp [Expr.binding])
    · rw [apart tighter.ne']
      exact .operand lower (derives.level_of_phrase tighter lower)

theorem Expr.Recovered.selection
    (printed : ts.map Placed.token = Rule.parenthesized (e.binding < Expr.target) e.tokens)
    (fits : n + deepened (e.binding < Expr.target) e.levels ≤ nesting.limit) :
    ∃ e', e'.bare = e.bare ∧ Derives nesting n ts (.selection e.points e') := by
  have apart (other : e.binding < Expr.target) : e.points = 0 := by
    cases e with
    | member => exact absurd other (Nat.lt_irrefl _)
    | _ => rfl
  obtain ⟨e', same, ⟨looser, derives⟩ | ⟨bound, derives⟩⟩ :=
    reads.parenthesized Expr.target printed fits
  · refine ⟨e', same, ?_⟩
    rw [apart looser]
    exact .primary derives
  · refine ⟨e', same, ?_⟩
    cases e with
    | literal | ident | call => exact .primary derives
    | member => exact derives
    | unary => exact absurd bound (by simp [Expr.target, Expr.binding])
    | binary op => exact absurd (bound.trans op.level_lt_levels.le) (by decide)

end

theorem Literal.literal?_token (value : Literal) : value.token.literal? = some value := by
  cases value <;> rfl

theorem UnaryOp.unaryOp?_token (op : UnaryOp) : op.token.unaryOp? = some op := by
  cases op <;> rfl

mutual

theorem Expr.recovered (called : nesting.emptyCall = 1) (e : Expr) : e.Recovered nesting := by
  intro n ts printed fits
  match e with
  | .literal value _ =>
      obtain ⟨⟨_, column⟩, rfl, rfl⟩ := List.map_eq_singleton_iff.mp printed
      exact ⟨.literal value column, rfl, .literal value.literal?_token⟩
  | .ident name _ =>
      obtain ⟨⟨_, column⟩, rfl, rfl⟩ := List.map_eq_singleton_iff.mp printed
      exact ⟨.ident name column, rfl, .ident⟩
  | .member target name =>
      rw [Expr.levels] at fits
      obtain ⟨before, _, rfl, selected, point⟩ := List.map_eq_append_iff.mp printed
      obtain ⟨⟨_, column⟩, _, rfl, rfl, after⟩ := List.map_eq_cons_iff.mp point
      obtain ⟨⟨_, column'⟩, rfl, rfl⟩ := List.map_eq_singleton_iff.mp after
      obtain ⟨target', same, derives⟩ :=
        Recovered.selection (target.recovered called) selected (n := n) (by omega)
      refine ⟨.member target' name, ?_, .member derives (by omega)⟩
      rw [Expr.bare, Expr.bare, same]
  | .call name args _ =>
      rw [Expr.levels] at fits
      obtain ⟨⟨_, column⟩, _, rfl, rfl, after⟩ := List.map_eq_cons_iff.mp printed
      obtain ⟨column', inside, column'', rfl, within⟩ := exists_between after
      by_cases filled : args = []
      · subst filled
        obtain rfl := List.map_eq_nil_iff.mp within
        rw [Expr.argumentLevels] at fits
        exact ⟨.call name [] column, rfl, .emptyCall (by omega)⟩
      · obtain ⟨args', same, derives⟩ :=
          Expr.recovered_arguments called args filled (n := n + 1) within (by omega)
        refine ⟨.call name args' column, ?_, .call (by omega) derives⟩
        rw [Expr.bare, Expr.bare, same]
  | .unary op operand _ =>
      rw [Expr.levels] at fits
      obtain ⟨⟨token, column⟩, after, rfl, signs, inside⟩ := List.map_eq_cons_iff.mp printed
      obtain ⟨operand', same, derives⟩ :=
        Recovered.unary (operand.recovered called) inside (n := n + 1) (by omega)
      refine ⟨.unary op operand' column, ?_, .sign ?_ (by omega) derives⟩
      · rw [Expr.bare, Expr.bare, same]
      · rw [show token = op.token from signs, op.unaryOp?_token]
  | .binary op left right =>
      rw [Expr.levels] at fits
      obtain ⟨before, _, rfl, first, rest⟩ := List.map_eq_append_iff.mp printed
      obtain ⟨⟨_, column⟩, after, rfl, rfl, second⟩ := List.map_eq_cons_iff.mp rest
      obtain ⟨left', same, derives⟩ :=
        Recovered.chain (left.recovered called) op.level_lt_levels first (n := n) (by omega)
      -- Each operator of a chain nests its right operand one level deeper than the one before it.
      obtain ⟨right', same', derives'⟩ :=
        Recovered.level (k := op.level + 1) (right.recovered called) op.level_lt_levels second
          (n := n + (left.operators op.level + 1)) (by omega)
      refine ⟨.binary op left' right', ?_, .operator derives rfl (by omega) derives'⟩
      rw [Expr.bare, Expr.bare, same, same']

theorem Expr.recovered_arguments (called : nesting.emptyCall = 1) (args : List Expr)
    (filled : args ≠ []) {n : Nat} {ts : List Placed}
    (printed : ts.map Placed.token = Expr.argumentTokens args)
    (fits : n + Expr.argumentLevels args ≤ nesting.limit) :
    ∃ args', Expr.bareArguments args' = Expr.bareArguments args ∧
      Derives nesting n ts (.arguments args') := by
  match args with
  | [] => exact absurd rfl filled
  | [arg] =>
      rw [Expr.argumentLevels] at fits
      obtain ⟨arg', same, derives⟩ := arg.recovered called n ts printed (by omega)
      refine ⟨[arg'], ?_, .argument (derives.level_of_phrase (Nat.zero_le _) (Nat.zero_le _))⟩
      rw [Expr.bareArguments, same]
      rfl
  | arg :: next :: args =>
      rw [Expr.argumentLevels] at fits
      obtain ⟨before, _, rfl, first, rest⟩ := List.map_eq_append_iff.mp printed
      obtain ⟨⟨_, column⟩, after, rfl, rfl, others⟩ := List.map_eq_cons_iff.mp rest
      obtain ⟨arg', same, derives⟩ := arg.recovered called n before first (by omega)
      obtain ⟨args', same', derives'⟩ :=
        Expr.recovered_arguments called (next :: args) nofun others (n := n) (by omega)
      refine ⟨arg' :: args', ?_,
        .arguments (derives.level_of_phrase (Nat.zero_le _) (Nat.zero_le _)) derives'⟩
      rw [Expr.bareArguments, same, same', ← Expr.bareArguments]

end

/-! ## What parsing gives -/

section

variable {e : Expr} {text : String} (prints : e.Prints text)

include prints

theorem Expr.Prints.exists_derives {limit : Nat} (fits : e.levels ≤ limit) :
    ∃ lexed e', tokenize text = .ok lexed ∧ e'.bare = e.bare ∧
      Derives ⟨limit, 1⟩ 0 lexed.tokens (.level 0 e') := by
  obtain ⟨lexed, tokens, printed⟩ := prints.exists_tokenize
  have again : e.Recovered ⟨limit, 1⟩ := e.recovered rfl
  obtain ⟨e', same, derives⟩ := again 0 lexed.tokens printed (by rwa [Nat.zero_add])
  exact ⟨lexed, e', tokens, same, derives.level_of_phrase (Nat.zero_le _) (Nat.zero_le _)⟩

theorem Expr.Prints.exists_parse (fits : e.levels ≤ maxDepth) :
    ∃ e', parse text = .ok e' ∧ e'.bare = e.bare := by
  obtain ⟨lexed, e', tokens, same, derives⟩ := prints.exists_derives fits
  exact ⟨e', (parse_eq_ok_iff tokens e').mpr derives, same⟩

theorem Expr.Prints.parse_or_tooDeep :
    (∃ e', parse text = .ok e' ∧ e'.bare = e.bare) ∨
      ∃ column, parse text = .error ⟨.tooDeep, column⟩ := by
  obtain ⟨lexed, e', tokens, same, derives⟩ :=
    prints.exists_derives (Nat.le_add_right e.levels maxDepth)
  have gives := derives.readFrom rfl lexed.stop _ (Nat.zero_add _) [] ends_nil
  rw [List.append_nil] at gives
  obtain ⟨_, read⟩ := gives
  have filled : ¬ text.toList.all Text.isBlank := fun blank =>
    derives.ne_nil (tokens_eq_nil_of_blank tokens blank)
  rw [parse_eq_of_tokenize tokens filled, Lexed.parse]
  have agrees : Agrees (readLevel lexed.stop 0 maxDepth lexed.tokens)
      (readLevel lexed.stop 0 (e.levels + maxDepth) lexed.tokens) :=
    readLevel_agrees 0 lexed.tokens (Nat.le_add_left maxDepth e.levels)
  rcases agrees with ⟨column, deep⟩ | agrees
  · exact .inr ⟨column, by rw [deep]; rfl⟩
  · exact .inl ⟨e', by rw [agrees, read]; rfl, same⟩

end

/-- A printed expression is parsed to the expression again, up to columns, unless the levels do not
suffice; and they do if the expression uses no more of them than there are. -/
theorem parse_of_prints (e : Expr) :
    (e.Writable → ∃ text, e.Prints text) ∧
      ∀ text, e.Prints text →
        ((∃ e', parse text = .ok e' ∧ e'.bare = e.bare) ∨
          ∃ column, parse text = .error ⟨.tooDeep, column⟩) ∧
        (e.levels ≤ maxDepth → ∃ e', parse text = .ok e' ∧ e'.bare = e.bare) :=
  ⟨Expr.exists_prints, fun _ prints => ⟨prints.parse_or_tooDeep, prints.exists_parse⟩⟩

namespace Nested

def one : Decimal.Binary64 := .ofDigits ['1'] []

def tree : Expr :=
  .binary .sub (.ident "a" 0)
    (.binary .sub (.member (.literal (.number one) 0) "b") (.literal (.string "it's") 0))

def text : String :=
  .ofList
    ['a', ' ', '-', '(', '(', '1', '.', ')', '.', 'b', '-', '"', 'i', 't', '\'', 's', '"', ')']

theorem isIdentifier_a : IsIdentifier "a" := ⟨⟨'a', [], rfl, rfl, rfl⟩, by decide⟩

theorem isIdentifier_b : IsIdentifier "b" := ⟨⟨'b', [], rfl, rfl, rfl⟩, by decide⟩

theorem writable_tree : tree.Writable := by
  have number : (Literal.number one).Writable := ⟨['1', '.'], rfl⟩
  have string : (Literal.string "it's").Writable := .inr (by decide)
  exact .binary (.ident isIdentifier_a)
    (.binary (.member (.literal number) isIdentifier_b) (.literal string))

theorem prints_text : tree.Prints text := by
  have none : Writes [] [] := .blanks nofun
  have string : (Token.string "it's").Spells ('"' :: ("it's".toList ++ ['"'])) :=
    .string (.inr rfl) (by decide)
  have number : (Token.number one).Spells ['1', '.'] := .number rfl
  have difference := ((none.cons (.mark .closeParen rfl)).cons string).cons (.mark (.op .sub) rfl)
  have point := (difference.cons isIdentifier_b.spells).cons (.mark .dot rfl)
  have target := ((point.cons (.mark .closeParen rfl)).cons number).cons (.mark .openParen rfl)
  have right := target.cons (.mark .openParen rfl)
  have blank : ∀ c ∈ [' '], Text.isBlank c = true := List.forall_mem_singleton.mpr rfl
  have whole := (Writes.token blank (.mark (.op .sub) rfl) right).cons isIdentifier_a.spells
  change Writes _ (String.ofList _).toList
  rw [String.toList_ofList]
  exact whole

theorem parse_nested :
    tree.Writable ∧ tree.Prints text ∧ tree.levels ≤ maxDepth ∧
      (∃ text, tree.Prints text) ∧ ∃ e, parse text = .ok e ∧ e.bare = tree.bare := by
  have fits : tree.levels ≤ maxDepth := by decide
  exact ⟨writable_tree, prints_text, fits, (parse_of_prints tree).1 writable_tree,
    ((parse_of_prints tree).2 text prints_text).2 fits⟩

end Nested

end RuleLint.Rule
