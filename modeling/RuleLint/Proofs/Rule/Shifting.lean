import RuleLint.Proofs.Rule.Reparsing
import RuleLint.Proofs.Rule.Splitting

namespace RuleLint.Rule

def Phrase.UpToColumns (P : Phrase → Prop) : Phrase → Prop
  | level k e => ∃ e', Expr.bare e' = e.bare ∧ P (.level k e')
  | chain k i e => ∃ e', Expr.bare e' = e.bare ∧ P (.chain k i e')
  | unary e => ∃ e', Expr.bare e' = e.bare ∧ P (.unary e')
  | selection i e => ∃ e', Expr.bare e' = e.bare ∧ P (.selection i e')
  | primary e => ∃ e', Expr.bare e' = e.bare ∧ P (.primary e')
  | arguments args =>
    ∃ args', Expr.bareArguments args' = Expr.bareArguments args ∧ P (.arguments args')

variable {nesting : Nesting} {n : Nat} {ts ts' : List Placed}

theorem exists_append_cons_of_tokens {front rest : List Placed} {t : Placed}
    (same : ts'.map Placed.token = (front ++ t :: rest).map Placed.token) :
    ∃ front' column rest', ts' = front' ++ ⟨t.token, column⟩ :: rest' ∧
      front'.map Placed.token = front.map Placed.token ∧
      rest'.map Placed.token = rest.map Placed.token := by
  rw [List.map_append, List.map_cons] at same
  obtain ⟨front', _, rfl, sameFront, after⟩ := List.map_eq_append_iff.mp same
  obtain ⟨⟨_, column⟩, rest', rfl, rfl, sameRest⟩ := List.map_eq_cons_iff.mp after
  exact ⟨front', column, rest', rfl, sameFront, sameRest⟩

theorem exists_cons_of_tokens {rest : List Placed} {t : Placed}
    (same : ts'.map Placed.token = (t :: rest).map Placed.token) :
    ∃ column rest', ts' = ⟨t.token, column⟩ :: rest' ∧
      rest'.map Placed.token = rest.map Placed.token := by
  obtain ⟨⟨_, column⟩, rest', rfl, rfl, sameRest⟩ := List.map_eq_cons_iff.mp same
  exact ⟨column, rest', rfl, sameRest⟩

theorem Derives.shift {phrase : Phrase} (derives : Derives nesting n ts phrase)
    (same : ts'.map Placed.token = ts.map Placed.token) :
    phrase.UpToColumns (Derives nesting n ts') := by
  induction derives generalizing ts' with
  | operand lower _ ih =>
      obtain ⟨_, bare, tighter⟩ := ih same
      exact ⟨_, bare, .operand lower tighter⟩
  | operator _ level fits _ ih ih' =>
      obtain ⟨front, column, rest, rfl, sameFront, sameRest⟩ := exists_append_cons_of_tokens same
      obtain ⟨_, bare, before⟩ := ih sameFront
      obtain ⟨_, bare', after⟩ := ih' sameRest
      exact ⟨_, by rw [Expr.bare, bare, bare', Expr.bare], .operator before level fits after⟩
  | chain _ ih =>
      obtain ⟨_, bare, operators⟩ := ih same
      exact ⟨_, bare, .chain operators⟩
  | unary _ ih =>
      obtain ⟨_, bare, operand⟩ := ih same
      exact ⟨_, bare, .unary operand⟩
  | sign signs fits _ ih =>
      obtain ⟨column, rest, rfl, sameRest⟩ := exists_cons_of_tokens same
      obtain ⟨_, bare, operand⟩ := ih sameRest
      exact ⟨_, by rw [Expr.bare, bare, Expr.bare], .sign signs fits operand⟩
  | selection _ ih =>
      obtain ⟨_, bare, selected⟩ := ih same
      exact ⟨_, bare, .selection selected⟩
  | primary _ ih =>
      obtain ⟨_, bare, first⟩ := ih same
      exact ⟨_, bare, .primary first⟩
  | member _ fits ih =>
      obtain ⟨front, column, rest, rfl, sameFront, sameRest⟩ := exists_append_cons_of_tokens same
      obtain ⟨column', rest', rfl, none⟩ := exists_cons_of_tokens sameRest
      obtain rfl := List.map_eq_nil_iff.mp none
      obtain ⟨_, bare, before⟩ := ih sameFront
      exact ⟨_, by rw [Expr.bare, bare, Expr.bare], .member before fits⟩
  | literal writes =>
      obtain ⟨column, rest, rfl, none⟩ := exists_cons_of_tokens same
      obtain rfl := List.map_eq_nil_iff.mp none
      exact ⟨.literal _ column, rfl, .literal writes⟩
  | ident =>
      obtain ⟨column, rest, rfl, none⟩ := exists_cons_of_tokens same
      obtain rfl := List.map_eq_nil_iff.mp none
      exact ⟨.ident _ column, rfl, .ident⟩
  | parens fits _ ih =>
      obtain ⟨column, rest, rfl, sameRest⟩ := exists_cons_of_tokens same
      obtain ⟨inside', column', _, rfl, sameInside, none⟩ := exists_append_cons_of_tokens sameRest
      obtain rfl := List.map_eq_nil_iff.mp none
      obtain ⟨_, bare, inside⟩ := ih sameInside
      exact ⟨_, bare, .parens fits inside⟩
  | emptyCall fits =>
      obtain ⟨column, _, rfl, sameRest⟩ := exists_cons_of_tokens same
      obtain ⟨column', _, rfl, sameRest'⟩ := exists_cons_of_tokens sameRest
      obtain ⟨column'', _, rfl, none⟩ := exists_cons_of_tokens sameRest'
      obtain rfl := List.map_eq_nil_iff.mp none
      exact ⟨.call _ [] column, rfl, .emptyCall fits⟩
  | call fits _ ih =>
      obtain ⟨column, _, rfl, sameRest⟩ := exists_cons_of_tokens same
      obtain ⟨column', _, rfl, sameRest'⟩ := exists_cons_of_tokens sameRest
      obtain ⟨inside', column'', _, rfl, sameInside, none⟩ := exists_append_cons_of_tokens sameRest'
      obtain rfl := List.map_eq_nil_iff.mp none
      obtain ⟨_, bare, inside⟩ := ih sameInside
      exact ⟨_, by rw [Expr.bare, bare, Expr.bare], .call fits inside⟩
  | argument _ ih =>
      obtain ⟨_, bare, last⟩ := ih same
      exact ⟨_, by simp only [Expr.bareArguments, bare], .argument last⟩
  | arguments _ _ ih ih' =>
      obtain ⟨front, column, rest, rfl, sameFront, sameRest⟩ := exists_append_cons_of_tokens same
      obtain ⟨_, bare, first⟩ := ih sameFront
      obtain ⟨_, bare', others⟩ := ih' sameRest
      exact ⟨_, (by rw [Expr.bareArguments, bare, bare', Expr.bareArguments]),
        .arguments first others⟩

theorem Lexed.parse_shift {lexed lexed' : Lexed} {e : Expr} (parsed : lexed.parse = .ok e)
    (same : lexed'.tokens.map Placed.token = lexed.tokens.map Placed.token) :
    ∃ e', e'.bare = e.bare ∧ lexed'.parse = .ok e' := by
  obtain ⟨_, bare, derives⟩ := ((lexed.parse_eq_ok_iff e).mp parsed).shift same
  exact ⟨_, bare, (lexed'.parse_eq_ok_iff _).mpr derives⟩

theorem exists_laid {tokens : List Token} (spelled : ∀ token ∈ tokens, ∃ word, token.Spells word) :
    ∃ cs, ∀ column, ∃ ts, Laid column ts cs ∧ ts.map Placed.token = tokens := by
  induction tokens with
  | nil => exact ⟨[], fun _ => ⟨[], .nil, rfl⟩⟩
  | cons token tokens ih =>
      rw [List.forall_mem_cons] at spelled
      obtain ⟨⟨word, spells⟩, others⟩ := spelled
      obtain ⟨cs, laid⟩ := ih others
      refine ⟨word ++ ' ' :: cs, fun column => ?_⟩
      obtain ⟨ts, laid, same⟩ := laid (column + word.length + 1)
      have longest : ∀ c ∈ (' ' :: cs).head?, token.goesOn c = false := by
        rintro c ⟨⟩
        exact Token.goesOn_eq_false_of_isBlank rfl token
      exact ⟨⟨token, column⟩ :: ts, .token spells longest (.blank rfl laid), by
        rw [List.map_cons, same]⟩

theorem exists_tokenize {tokens : List Token}
    (spelled : ∀ token ∈ tokens, ∃ word, token.Spells word) :
    ∃ text lexed, tokenize text = .ok lexed ∧ lexed.tokens.map Placed.token = tokens := by
  obtain ⟨cs, laid⟩ := exists_laid spelled
  obtain ⟨ts, laid, same⟩ := laid 1
  refine ⟨.ofList cs, ⟨ts, _⟩, tokenize_eq_ok_iff.mpr ⟨rfl, ?_⟩, same⟩
  rwa [String.toList_ofList]

end RuleLint.Rule
