import Mathlib.Data.List.Basic
import RuleLint.Proofs.Rule.Spelling

namespace RuleLint.Rule

/-! ## Printing -/

def Literal.token : Literal → Token
  | bool value => .bool value
  | number value => .number value
  | string text => .string text
  | null => .null

def UnaryOp.token : UnaryOp → Token
  | not => .not
  | neg => .op .sub

namespace Expr

/-- The tightest place that the expression may stand at without parentheses: a binding level of the
operators, that of the operand of a unary operator, or that of what a name is selected from. A
number is no such target, because a point after it would be read as a part of it. -/
def binding : Expr → Nat
  | binary op _ _ => op.level
  | unary _ _ _ => BinOp.levels
  | literal (.number _) _ => BinOp.levels + 1
  | literal _ _ | ident _ _ | member _ _ | call _ _ _ => BinOp.levels + 2

def target : Nat := BinOp.levels + 2

end Expr

def parenthesized (needed : Bool) (tokens : List Token) : List Token :=
  if needed then .openParen :: (tokens ++ [.closeParen]) else tokens

mutual

def Expr.tokens : Expr → List Token
  | .literal value _ => [value.token]
  | .ident name _ => [.ident name]
  | .member target name =>
    parenthesized (target.binding < Expr.target) target.tokens ++ [.dot, .ident name]
  | .call name args _ => .ident name :: .openParen :: (Expr.argumentTokens args ++ [.closeParen])
  | .unary op operand _ =>
    op.token :: parenthesized (operand.binding < BinOp.levels) operand.tokens
  | .binary op left right =>
    parenthesized (left.binding < op.level) left.tokens ++
      .op op :: parenthesized (right.binding < op.level + 1) right.tokens

def Expr.argumentTokens : List Expr → List Token
  | [] => []
  | [arg] => arg.tokens
  | arg :: next :: args => arg.tokens ++ .comma :: Expr.argumentTokens (next :: args)

end

/-- The text is the expression, printed with blanks around its tokens or without. -/
def Expr.Prints (e : Expr) (text : String) : Prop := Writes e.tokens text.toList

/-! ## Printed tokens may stand side by side -/

namespace Token

theorem isMark_ofWord (name : String) : (ofWord name).isMark = false := by
  rw [ofWord]
  split_ifs <;> rfl

theorem Spells.eq_of_equals {token : Token} {cs : List Char} (spells : token.Spells ('=' :: cs)) :
    token = .op .eq := by
  generalize written : '=' :: cs = word at spells
  cases spells with
  | word word =>
      obtain ⟨c, cs, letters, start, -⟩ := word
      rw [← written] at letters
      cases letters
      cases start
  | number means =>
      obtain ⟨c, cs, rfl, digit, -⟩ := exists_cons_of_numeral? means
      cases written
      cases digit
  | string quotes =>
      cases written
      rcases quotes with eq | eq <;> cases eq
  | mark _ mark =>
      cases token with
      | op op => cases op <;> first | rfl | cases written
      | not | openParen | closeParen | comma | dot => cases written
      | _ => cases mark

theorem Spells.first_of_isMark {token : Token} {c : Char} {cs : List Char}
    (spells : token.Spells (c :: cs)) (mark : token.isMark = true) :
    isWordChar c = false ∧ (token ≠ .dot → isNumberChar c = false) := by
  generalize written : c :: cs = word at spells
  cases spells with
  | word word =>
      rw [isMark_ofWord] at mark
      cases mark
  | number | string => cases mark
  | mark =>
      cases token with
      | op op => cases op <;> cases written <;> exact ⟨rfl, fun _ => rfl⟩
      | not | openParen | closeParen | comma => cases written; exact ⟨rfl, fun _ => rfl⟩
      | dot => cases written; exact ⟨rfl, fun other => absurd rfl other⟩
      | _ => cases mark

variable {token next : Token}

theorem adjoins_of_isMark (mark : token.isMark = true) (other : next ≠ .op .eq) :
    token.Adjoins next := by
  intro c cs spells
  have apart : decide (c = '=') = false := by
    rw [decide_eq_false_iff_not]
    rintro rfl
    exact other spells.eq_of_equals
  cases token with
  | op op => cases op <;> first | rfl | exact apart
  | not => exact apart
  | openParen | closeParen | comma | dot => rfl
  | _ => cases mark

def Closes (token : Token) : Prop := token.isMark = false ∨ token = .closeParen

theorem Closes.adjoins (closes : token.Closes) (mark : next.isMark = true)
    (apart : next = .dot → ∀ value, token ≠ .number value) : token.Adjoins next := by
  rintro c cs spells
  obtain ⟨word, digit⟩ := spells.first_of_isMark mark
  rcases closes with filled | rfl
  · cases token with
    | ident | bool | null => exact word
    | number value => exact digit fun dot => apart dot value rfl
    | string => rfl
    | _ => cases filled
  · rfl

structure Compact (tokens : List Token) : Prop where
  chain : tokens.IsChain Adjoins
  first : ∃ token, tokens.head? = some token ∧ token ≠ .op .eq
  last : ∃ token, tokens.getLast? = some token ∧ token.Closes

theorem compact_singleton (filled : token.isMark = false) : Compact [token] := by
  refine ⟨.singleton token, ⟨token, rfl, ?_⟩, ⟨token, rfl, .inl filled⟩⟩
  rintro rfl
  cases filled

variable {tokens tokens' : List Token}

theorem Compact.cons (compact : Compact tokens) (adjoins : ∀ next ≠ .op .eq, token.Adjoins next)
    (other : token ≠ .op .eq) : Compact (token :: tokens) := by
  obtain ⟨chain, ⟨first, begins, apart⟩, ⟨last, ends, closes⟩⟩ := compact
  refine ⟨List.isChain_cons.mpr ⟨?_, chain⟩, ⟨token, rfl, other⟩, ⟨last, ?_, closes⟩⟩
  · rw [begins]
    rintro _ ⟨⟩
    exact adjoins first apart
  · rw [List.getLast?_cons, ends]
    rfl

theorem Compact.append_cons (compact : Compact tokens) (mark : token.isMark = true)
    (apart : ∀ last ∈ tokens.getLast?, token = .dot → ∀ value, last ≠ .number value)
    (compact' : Compact tokens') : Compact (tokens ++ token :: tokens') := by
  obtain ⟨chain, ⟨first, begins, other⟩, ⟨last, ends, closes⟩⟩ := compact
  obtain ⟨chain', ⟨first', begins', other'⟩, ⟨last', ends', closes'⟩⟩ := compact'
  refine ⟨chain.append (List.isChain_cons.mpr ⟨?_, chain'⟩) ?_, ⟨first, ?_, other⟩,
    ⟨last', ?_, closes'⟩⟩
  · rw [begins']
    rintro _ ⟨⟩
    exact adjoins_of_isMark mark other'
  · rw [ends] at apart ⊢
    rintro _ ⟨⟩ _ ⟨⟩
    exact closes.adjoins mark (apart last rfl)
  · rw [List.head?_append, begins]
    rfl
  · rw [List.getLast?_append, List.getLast?_cons, ends']
    rfl

theorem compact_parens (inside : tokens = [] ∨ Compact tokens) :
    Compact (.openParen :: (tokens ++ [.closeParen])) := by
  have opens {next : Token} (other : next ≠ .op .eq) : openParen.Adjoins next :=
    adjoins_of_isMark rfl other
  refine ⟨?_, ⟨_, rfl, nofun⟩, ⟨.closeParen, ?_, .inr rfl⟩⟩
  · rcases inside with rfl | ⟨chain, ⟨first, begins, other⟩, ⟨last, ends, closes⟩⟩
    · exact .cons_cons (opens nofun) (.singleton _)
    · refine List.isChain_cons.mpr ⟨?_, chain.append (.singleton _) ?_⟩
      · rw [List.head?_append, begins]
        rintro _ ⟨⟩
        exact opens other
      · rw [ends]
        rintro _ ⟨⟩ _ ⟨⟩
        exact closes.adjoins rfl nofun
  · rw [← List.cons_append, List.getLast?_concat]

theorem compact_parenthesized (compact : Compact tokens) (needed : Bool) :
    Compact (parenthesized needed tokens) := by
  cases needed with
  | true => exact compact_parens (.inr compact)
  | false => exact compact

end Token

open Token (Compact)

theorem Expr.last_of_target (e : Expr) :
    ∀ last ∈ (parenthesized (e.binding < Expr.target) e.tokens).getLast?,
      ∀ value, last ≠ .number value := by
  have ending {tokens : List Token} (front : List Token) {token : Token}
      (whole : tokens = front ++ [token])
      (other : ∀ value, token ≠ .number value) :
      ∀ last ∈ tokens.getLast?, ∀ value, last ≠ .number value := by
    rw [whole, List.getLast?_concat]
    rintro _ ⟨⟩
    exact other
  have closed {needed : Bool} (outside : needed = true) (tokens : List Token) :
      ∀ last ∈ (parenthesized needed tokens).getLast?, ∀ value, last ≠ .number value :=
    ending (.openParen :: tokens) (if_pos outside) nofun
  cases e with
  | literal value =>
      cases value with
      | number => exact closed rfl _
      | bool | string | null => exact ending [] rfl nofun
  | ident => exact ending [] rfl nofun
  | member target name => exact ending _ (List.append_cons _ _ _) nofun
  | call name args =>
      exact ending (.ident name :: .openParen :: Expr.argumentTokens args) rfl nofun
  | unary => exact closed rfl _
  | binary op =>
      refine closed (decide_eq_true ?_) _
      exact op.level_lt_levels.trans (by decide)

mutual

theorem Expr.compact_tokens (e : Expr) : Compact e.tokens := by
  match e with
  | .literal value _ => exact Token.compact_singleton (by cases value <;> rfl)
  | .ident _ _ => exact Token.compact_singleton rfl
  | .member target name =>
      exact (Token.compact_parenthesized target.compact_tokens _).append_cons rfl
        (fun last ends _ => target.last_of_target last ends) (Token.compact_singleton rfl)
  | .call name args _ =>
      have inside : Expr.argumentTokens args = [] ∨ Compact (Expr.argumentTokens args) := by
        by_cases filled : args = []
        · exact .inl (filled ▸ rfl)
        · exact .inr (Expr.compact_argumentTokens args filled)
      obtain ⟨chain, -, last⟩ := Token.compact_parens inside
      refine ⟨List.isChain_cons.mpr ⟨?_, chain⟩, ⟨_, rfl, nofun⟩, last⟩
      rintro _ ⟨⟩
      exact Token.Closes.adjoins (.inl rfl) rfl nofun
  | .unary op operand _ =>
      refine (Token.compact_parenthesized operand.compact_tokens _).cons ?_ ?_
      · cases op <;> exact fun next other => Token.adjoins_of_isMark rfl other
      · cases op <;> nofun
  | .binary op left right =>
      exact (Token.compact_parenthesized left.compact_tokens _).append_cons rfl (fun _ _ => nofun)
        (Token.compact_parenthesized right.compact_tokens _)

theorem Expr.compact_argumentTokens (args : List Expr) (filled : args ≠ []) :
    Compact (Expr.argumentTokens args) := by
  match args with
  | [] => exact absurd rfl filled
  | [arg] => exact arg.compact_tokens
  | arg :: next :: args =>
      exact arg.compact_tokens.append_cons rfl (fun _ _ => nofun)
        (Expr.compact_argumentTokens (next :: args) nofun)

end

/-! ## Expressions that can be written -/

def IsIdentifier (name : String) : Prop :=
  IsWord name ∧ name ≠ "true" ∧ name ≠ "false" ∧ name ≠ "null"

theorem IsIdentifier.spells {name : String} (identifier : IsIdentifier name) :
    (Token.ident name).Spells name.toList := by
  obtain ⟨word, notTrue, notFalse, notNull⟩ := identifier
  have own : Token.ofWord name = .ident name := by simp [Token.ofWord, notTrue, notFalse, notNull]
  exact own ▸ .word word

def Literal.Writable : Literal → Prop
  | number value => ∃ digits, numeral? digits = some value
  | string text => '\'' ∉ text.toList ∨ '"' ∉ text.toList
  | bool _ | null => True

inductive Expr.Writable : Expr → Prop
  | literal {value : Literal} {column : Nat} (writable : value.Writable) :
      Writable (.literal value column)
  | ident {name : String} {column : Nat} (identifier : IsIdentifier name) :
      Writable (.ident name column)
  | member {target : Expr} {name : String} (writable : Writable target)
      (identifier : IsIdentifier name) : Writable (.member target name)
  | call {name : String} {args : List Expr} {column : Nat} (identifier : IsIdentifier name)
      (writable : ∀ arg ∈ args, Writable arg) : Writable (.call name args column)
  | unary {op : UnaryOp} {operand : Expr} {column : Nat} (writable : Writable operand) :
      Writable (.unary op operand column)
  | binary {op : BinOp} {left right : Expr} (writable : Writable left)
      (writable' : Writable right) : Writable (.binary op left right)

theorem Literal.Writable.exists_spells {value : Literal} (writable : value.Writable) :
    ∃ word, value.token.Spells word := by
  cases value with
  | bool b =>
      cases b with
      | true =>
          have word : IsWord "true" := ⟨'t', ['r', 'u', 'e'], rfl, rfl, rfl⟩
          exact ⟨_, .word word⟩
      | false =>
          have word : IsWord "false" := ⟨'f', ['a', 'l', 's', 'e'], rfl, rfl, rfl⟩
          exact ⟨_, .word word⟩
  | null =>
      have word : IsWord "null" := ⟨'n', ['u', 'l', 'l'], rfl, rfl, rfl⟩
      exact ⟨_, .word word⟩
  | number value =>
      obtain ⟨digits, means⟩ := writable
      exact ⟨digits, .number means⟩
  | string text =>
      rcases writable with single | double
      · exact ⟨_, .string (.inl rfl) single⟩
      · exact ⟨_, .string (.inr rfl) double⟩

theorem Expr.forall_argumentTokens {P : Token → Prop} {args : List Expr} (comma : P .comma)
    (each : ∀ arg ∈ args, ∀ token ∈ arg.tokens, P token) :
    ∀ token ∈ Expr.argumentTokens args, P token := by
  induction args using List.twoStepInduction with
  | nil => nofun
  | singleton arg => exact each arg List.mem_cons_self
  | cons_cons arg next args _ others =>
      rw [Expr.argumentTokens, List.forall_mem_append, List.forall_mem_cons]
      rw [List.forall_mem_cons] at each
      exact ⟨each.1, comma, others next each.2⟩

theorem Expr.Writable.exists_spells {e : Expr} (writable : e.Writable) :
    ∀ token ∈ e.tokens, ∃ word, token.Spells word := by
  have wrapped {tokens : List Token} (needed : Bool)
      (inside : ∀ token ∈ tokens, ∃ word, token.Spells word) :
      ∀ token ∈ parenthesized needed tokens, ∃ word, token.Spells word := by
    cases needed with
    | false => exact inside
    | true =>
        change ∀ token ∈ Token.openParen :: (tokens ++ [Token.closeParen]), _
        rw [List.forall_mem_cons, List.forall_mem_append, List.forall_mem_singleton]
        exact ⟨⟨_, .mark _ rfl⟩, inside, ⟨_, .mark _ rfl⟩⟩
  induction writable with
  | literal writable => exact List.forall_mem_singleton.mpr writable.exists_spells
  | ident identifier => exact List.forall_mem_singleton.mpr ⟨_, identifier.spells⟩
  | member _ identifier ih =>
      rw [Expr.tokens, List.forall_mem_append, List.forall_mem_cons, List.forall_mem_singleton]
      exact ⟨wrapped _ ih, ⟨_, .mark _ rfl⟩, ⟨_, identifier.spells⟩⟩
  | @call name args column identifier _ ih =>
      rw [Expr.tokens, List.forall_mem_cons, List.forall_mem_cons, List.forall_mem_append,
        List.forall_mem_singleton]
      exact ⟨⟨_, identifier.spells⟩, ⟨_, .mark _ rfl⟩,
        Expr.forall_argumentTokens ⟨_, .mark _ rfl⟩ ih, ⟨_, .mark _ rfl⟩⟩
  | @unary op operand column _ ih =>
      rw [Expr.tokens, List.forall_mem_cons]
      exact ⟨⟨_, .mark _ (by cases op <;> rfl)⟩, wrapped _ ih⟩
  | binary _ _ ih ih' =>
      rw [Expr.tokens, List.forall_mem_append, List.forall_mem_cons]
      exact ⟨wrapped _ ih, ⟨_, .mark _ rfl⟩, wrapped _ ih'⟩

theorem Expr.Prints.exists_tokenize {e : Expr} {text : String} (prints : e.Prints text) :
    ∃ lexed, tokenize text = .ok lexed ∧ lexed.tokens.map Placed.token = e.tokens := by
  obtain ⟨ts, split, same⟩ := Writes.exists_scan prints e.compact_tokens.chain 1
  refine ⟨⟨ts, text.length + 1⟩, ?_, same⟩
  rw [tokenize, split]
  rfl

theorem Expr.exists_prints {e : Expr} (writable : e.Writable) : ∃ text, e.Prints text := by
  obtain ⟨cs, writes⟩ := exists_writes writable.exists_spells
  exact ⟨.ofList cs, by rwa [Expr.Prints, String.toList_ofList]⟩

end RuleLint.Rule
