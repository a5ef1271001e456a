import RuleLint.Proofs.Rule.Refusing

namespace RuleLint.Rule

/-! ## Nodes and their tokens -/

mutual

/-- The expression and all that it is made of, from left to right. -/
def Expr.nodes : Expr → List Expr
  | .literal value column => [.literal value column]
  | .ident name column => [.ident name column]
  | .member target name => .member target name :: target.nodes
  | .call name args column => .call name args column :: Expr.argumentNodes args
  | .unary op operand column => .unary op operand column :: operand.nodes
  | .binary op left right => .binary op left right :: (left.nodes ++ right.nodes)

def Expr.argumentNodes : List Expr → List Expr
  | [] => []
  | arg :: args => arg.nodes ++ Expr.argumentNodes args

end

namespace Expr

/-- The token that a node begins with and that belongs to no other node. -/
def mark? : Expr → Option Placed
  | literal value column => some ⟨value.token, column⟩
  | ident name column => some ⟨.ident name, column⟩
  | call name _ column => some ⟨.ident name, column⟩
  | unary op _ column => some ⟨op.token, column⟩
  | member _ _ | binary _ _ _ => none

def marks (e : Expr) : List Placed := e.nodes.filterMap mark?

def first : Expr → Placed
  | literal value column => ⟨value.token, column⟩
  | ident name column => ⟨.ident name, column⟩
  | member target _ => target.first
  | call name _ column => ⟨.ident name, column⟩
  | unary op _ column => ⟨op.token, column⟩
  | binary _ left _ => left.first

theorem column_first (e : Expr) : e.first.column = e.column := by
  induction e using Expr.first.induct with
  | case1 | case2 | case4 | case5 => rfl
  | case3 target name ih => exact ih
  | case6 op left right ih => exact ih

theorem self_mem_nodes (e : Expr) : e ∈ e.nodes := by
  cases e with
  | _ => exact List.mem_cons_self

end Expr

mutual

theorem Expr.first_mem_marks (e : Expr) : ∀ node ∈ e.nodes, node.first ∈ e.marks := by
  match e with
  | .literal value column =>
      rw [Expr.nodes, List.forall_mem_singleton]
      exact List.mem_singleton_self _
  | .ident name column =>
      rw [Expr.nodes, List.forall_mem_singleton]
      exact List.mem_singleton_self _
  | .member target name =>
      have inside := target.first_mem_marks
      rw [Expr.nodes, List.forall_mem_cons]
      exact ⟨inside target target.self_mem_nodes, inside⟩
  | .call name args column =>
      rw [Expr.nodes, List.forall_mem_cons]
      exact ⟨List.mem_cons_self, fun node member =>
        List.mem_cons_of_mem _ (Expr.first_mem_marks_of_arguments args node member)⟩
  | .unary op operand column =>
      rw [Expr.nodes, List.forall_mem_cons]
      exact ⟨List.mem_cons_self, fun node member =>
        List.mem_cons_of_mem _ (operand.first_mem_marks node member)⟩
  | .binary op left right =>
      have inside := left.first_mem_marks
      have inside' := right.first_mem_marks
      have marks : Expr.marks (.binary op left right) = left.marks ++ right.marks :=
        List.filterMap_append
      rw [Expr.nodes, List.forall_mem_cons, List.forall_mem_append, marks]
      exact ⟨List.mem_append_left _ (inside left left.self_mem_nodes),
        fun node member => List.mem_append_left _ (inside node member),
        fun node member => List.mem_append_right _ (inside' node member)⟩

theorem Expr.first_mem_marks_of_arguments (args : List Expr) :
    ∀ node ∈ Expr.argumentNodes args,
      node.first ∈ (Expr.argumentNodes args).filterMap Expr.mark? := by
  match args with
  | [] => exact List.forall_mem_nil _
  | arg :: args =>
      rw [Expr.argumentNodes, List.forall_mem_append, List.filterMap_append]
      exact ⟨fun node member => List.mem_append_left _ (arg.first_mem_marks node member),
        fun node member => List.mem_append_right _
          (Expr.first_mem_marks_of_arguments args node member)⟩

end

/-! ## Parsed expressions -/

def Phrase.marks : Phrase → List Placed
  | level _ e | chain _ _ e | unary e | selection _ e | primary e => e.marks
  | arguments args => (Expr.argumentNodes args).filterMap Expr.mark?

theorem Token.eq_of_literal? {token : Token} {value : Literal}
    (writes : token.literal? = some value) : token = value.token := by
  cases token with
  | number | string | bool | null =>
      cases writes
      rfl
  | _ => cases writes

theorem Token.eq_of_unaryOp? {token : Token} {op : UnaryOp} (signs : token.unaryOp? = some op) :
    token = op.token := by
  rw [unaryOp?.eq_def] at signs
  split at signs
  · cases signs
    rfl
  · cases signs
    rfl
  · cases signs

theorem Derives.marks_sublist {nesting : Nesting} {n : Nat} {ts : List Placed} {phrase : Phrase}
    (derives : Derives nesting n ts phrase) : phrase.marks.Sublist ts := by
  induction derives with
  | operand _ _ ih | chain _ ih | unary _ ih | selection _ ih | primary _ ih => exact ih
  | operator _ _ _ _ ih ih' =>
      rw [Phrase.marks, Expr.marks, Expr.nodes, List.filterMap_cons_none rfl,
        List.filterMap_append]
      exact ih.append (ih'.cons _)
  | sign signs _ _ ih =>
      obtain rfl := Token.eq_of_unaryOp? signs
      exact ih.cons_cons _
  | member _ _ ih => exact ih.trans (List.sublist_append_left _ _)
  | literal writes =>
      obtain rfl := Token.eq_of_literal? writes
      exact .refl _
  | ident => exact .refl _
  | parens _ _ ih => exact (ih.trans (List.sublist_append_left _ _)).cons _
  | emptyCall => exact (List.nil_sublist _).cons_cons _
  | call _ _ ih => exact ((ih.trans (List.sublist_append_left _ _)).cons _).cons_cons _
  | argument _ ih =>
      rw [Phrase.marks, Expr.argumentNodes, Expr.argumentNodes, List.append_nil]
      exact ih
  | arguments _ _ ih ih' =>
      rw [Phrase.marks, Expr.argumentNodes, List.filterMap_append]
      exact ih.append (ih'.cons _)

/-! ## Faults of expressions -/

section

variable {d : Declaring} {tools : Toolchain} {diagnostic : Diagnostic}

theorem bind_eq_error {ε α β : Type} {x : Except ε α} {f : α → Except ε β} {e : ε}
    (refused : x >>= f = .error e) : x = .error e ∨ ∃ a, x = .ok a ∧ f a = .error e := by
  cases x with
  | error _ => exact .inl (congrArg Except.error (Except.error.inj refused))
  | ok a => exact .inr ⟨a, rfl, refused⟩

theorem column_of_faultAt {α : Type} {column : Nat} {x : Except Fault α}
    (refused : faultAt column x = .error diagnostic) : diagnostic.column = column := by
  cases x with
  | ok _ => cases refused
  | error _ =>
      cases refused
      rfl

theorem Expr.column_mem_nodes {e node : Expr} (member : node ∈ e.nodes)
    (at' : diagnostic.column = node.column) : diagnostic.column ∈ e.nodes.map Expr.column :=
  at' ▸ List.mem_map_of_mem member

mutual

theorem column_of_infer (e : Expr) (refused : infer d tools e = .error diagnostic) :
    diagnostic.column ∈ e.nodes.map Expr.column := by
  match e with
  | .literal value column =>
      rw [infer] at refused
      cases refused
  | .ident name column =>
      rw [infer] at refused
      exact Expr.column_mem_nodes (Expr.self_mem_nodes _) (column_of_faultAt refused)
  | .member target name =>
      rw [infer] at refused
      rw [Expr.nodes, List.map_cons]
      split at refused
      · exact .tail _ (Expr.column_mem_nodes target.self_mem_nodes (column_of_faultAt refused))
      · rcases bind_eq_error refused with inside | ⟨ty, -, selected⟩
        · exact .tail _ (column_of_infer target inside)
        · exact .tail _ (Expr.column_mem_nodes target.self_mem_nodes (column_of_faultAt selected))
  | .call name args column =>
      rw [infer] at refused
      split at refused
      · cases refused
        exact Expr.column_mem_nodes (Expr.self_mem_nodes _) rfl
      · split at refused
        · rcases bind_eq_error refused with inside | ⟨_, -, returned⟩
          · exact .tail _ (column_of_checkArgs args inside)
          · cases returned
        · cases refused
          exact Expr.column_mem_nodes (Expr.self_mem_nodes _) rfl
  | .unary op operand column =>
      rw [infer] at refused
      rcases bind_eq_error refused with inside | ⟨ty, -, applied⟩
      · exact .tail _ (column_of_infer operand inside)
      · split at applied
        · cases applied
        · cases applied
          exact Expr.column_mem_nodes (Expr.self_mem_nodes _) rfl
  | .binary op left right =>
      rw [infer] at refused
      rw [Expr.nodes, List.map_cons, List.map_append]
      rcases bind_eq_error refused with inside | ⟨l, -, refused⟩
      · exact .tail _ (List.mem_append_left _ (column_of_infer left inside))
      rcases bind_eq_error refused with inside | ⟨r, -, applied⟩
      · exact .tail _ (List.mem_append_right _ (column_of_infer right inside))
      · split at applied
        · cases applied
        · cases applied
          exact .head _

theorem column_of_checkArgs {name : String} {index : Nat} {params : List Ty} (args : List Expr)
    (refused : checkArgs d tools name index params args = .error diagnostic) :
    diagnostic.column ∈ (Expr.argumentNodes args).map Expr.column := by
  match params, args with
  | [], _ =>
      rw [checkArgs] at refused
      · cases refused
      · nofun
  | _ :: _, [] =>
      rw [checkArgs] at refused
      · cases refused
      · nofun
  | expected :: params, arg :: args =>
      rw [checkArgs] at refused
      rw [Expr.argumentNodes, List.map_append]
      rcases bind_eq_error refused with inside | ⟨actual, -, refused⟩
      · exact List.mem_append_left _ (column_of_infer arg inside)
      · split at refused
        · exact List.mem_append_right _ (column_of_checkArgs args refused)
        · cases refused
          exact List.mem_append_left _ (Expr.column_mem_nodes arg.self_mem_nodes rfl)

end

theorem column_of_check {e : Expr} (refused : check d tools e = .error diagnostic) :
    diagnostic.column ∈ e.nodes.map Expr.column := by
  rw [check] at refused
  rcases bind_eq_error refused with inside | ⟨ty, -, refused⟩
  · exact column_of_infer e inside
  · split at refused
    · cases refused
    · cases refused
      exact Expr.column_mem_nodes e.self_mem_nodes rfl

end

/-! ## Faults of texts -/

theorem Lexeme.malformed_of_read {c : Char} {cs : List Char} {fault : Fault}
    (refused : read c cs = .error fault) : fault.kind = .malformed := by
  rw [read] at refused
  split_ifs at refused
  · rw [number] at refused
    split at refused
    · cases refused
    · cases refused
      rfl
  · rw [quoted] at refused
    split at refused
    · cases refused
      rfl
    · cases refused
  · rw [mark.eq_def] at refused
    split at refused <;> cases refused <;> rfl

theorem bounds_of_tokenize {input : String} {diagnostic : Diagnostic}
    (refused : tokenize input = .error diagnostic) :
    diagnostic.fault.kind = .malformed ∧ 1 ≤ diagnostic.column ∧
      diagnostic.column ≤ input.length := by
  obtain ⟨front, c, rest, ts, whole, at', -, -, read⟩ := laid_of_error (tokenize_eq_error refused)
  have length : input.length = front.length + (rest.length + 1) := by
    rw [← String.length_toList, whole, List.length_append, List.length_cons]
  exact ⟨Lexeme.malformed_of_read read, by omega, by omega⟩

theorem bounds_of_parse {input : String} {diagnostic : Diagnostic}
    (refused : parse input = .error diagnostic) :
    diagnostic.fault.kind = .malformed ∧ 1 ≤ diagnostic.column ∧
      diagnostic.column ≤ input.length + 1 := by
  by_cases blank : input.toList.all Text.isBlank
  · rw [parse, if_pos blank] at refused
    cases refused
    exact ⟨rfl, Nat.le_refl 1, Nat.le_add_left 1 _⟩
  cases split : tokenize input with
  | error d =>
      rw [parse, if_neg blank, split] at refused
      obtain rfl := Except.error.inj refused
      obtain ⟨malformed, positive, bound⟩ := bounds_of_tokenize split
      exact ⟨malformed, positive, Nat.le_succ_of_le bound⟩
  | ok lexed =>
      refine ⟨malformed_of_parse split refused, ?_⟩
      obtain ⟨stops, laid⟩ := tokenize_eq_ok_iff.mp split
      rw [parse_eq_of_tokenize split blank] at refused
      obtain ⟨front, after, whole, at', -⟩ := lexed.parse_pinpoints diagnostic refused
      rw [at']
      cases after with
      | nil =>
          rw [foundColumn, stops]
          exact ⟨Nat.le_add_left 1 _, Nat.le_refl _⟩
      | cons t after =>
          have bounds := laid.column_mem t (whole ▸ List.mem_append_right _ List.mem_cons_self)
          rw [String.length_toList] at bounds
          rw [foundColumn]
          omega

/-! ## Columns of a text -/

theorem marks_of_parse {input : String} {e : Expr} (parsed : parse input = .ok e) :
    ∃ ts, Laid 1 ts input.toList ∧ e.marks.Sublist ts := by
  obtain ⟨lexed, split⟩ := exists_tokenize_of_parse parsed
  exact ⟨lexed.tokens, (tokenize_eq_ok_iff.mp split).2,
    ((parse_eq_ok_iff split e).mp parsed).marks_sublist⟩

theorem node_of_parse {input : String} {e node : Expr} (parsed : parse input = .ok e)
    (member : node ∈ e.nodes) : 1 ≤ node.column ∧ node.column ≤ input.length ∧
      ∃ word, node.first.token.Spells word ∧ word <+: input.toList.drop (node.column - 1) := by
  obtain ⟨ts, laid, marks⟩ := marks_of_parse parsed
  have read := marks.subset (e.first_mem_marks node member)
  have bounds := laid.column_mem _ read
  have spelled := laid.spelled _ read
  rw [node.column_first] at bounds spelled
  rw [String.length_toList] at bounds
  exact ⟨bounds.1, by omega, spelled⟩

/-- Every node of a parsed expression stands where its first token is written, and the tokens that
belong to single nodes stand from left to right. Every fault is reported at a character of the text
or at its end, and one that is not of the text itself is reported at a node. -/
theorem columns_faithful (input : String) :
    (∀ e, parse input = .ok e →
      (∀ node ∈ e.nodes, 1 ≤ node.column ∧ node.column ≤ input.length ∧
        ∃ word, node.first.token.Spells word ∧ word <+: input.toList.drop (node.column - 1)) ∧
      (e.marks.map Placed.column).Pairwise (· < ·)) ∧
    ∀ (d : Declaring) (tools : Toolchain) (diagnostic : Diagnostic),
      compile d tools input = .error diagnostic →
      1 ≤ diagnostic.column ∧ diagnostic.column ≤ input.length + 1 ∧
      diagnostic.toRuleError.column = some diagnostic.column ∧
      (∃ text, diagnostic.toRuleError.message =
        "Parse error at column " ++ toString diagnostic.column ++ ": " ++ text) ∧
      (diagnostic.fault.kind ≠ .malformed →
        ∃ e, parse input = .ok e ∧ ∃ node ∈ e.nodes, node.column = diagnostic.column) := by
  refine ⟨fun e parsed => ⟨fun node => node_of_parse parsed, ?_⟩,
    fun d tools diagnostic refused => ?_⟩
  · obtain ⟨ts, laid, marks⟩ := marks_of_parse parsed
    have increasing := (List.pairwise_append.mp laid.increasing).1
    exact increasing.sublist (marks.map Placed.column)
  have message : diagnostic.toRuleError.message =
      "Parse error at column " ++ toString diagnostic.column ++ ": " ++
        (diagnostic.fault.text ++ ".") := by
    rw [Diagnostic.toRuleError, String.append_assoc]
  rw [compile] at refused
  rcases bind_eq_error refused with unparsed | ⟨e, parsed, unchecked⟩
  · obtain ⟨malformed, positive, bound⟩ := bounds_of_parse unparsed
    exact ⟨positive, bound, rfl, ⟨_, message⟩, fun other => absurd malformed other⟩
  · obtain ⟨node, member, at'⟩ := List.mem_map.mp (column_of_check unchecked)
    obtain ⟨positive, bound, -⟩ := node_of_parse parsed member
    rw [at'] at positive bound
    exact ⟨positive, Nat.le_succ_of_le bound, rfl, ⟨_, message⟩,
      fun _ => ⟨e, parsed, node, member, at'⟩⟩

namespace Signed

def text : String := .ofList ['\'', 'é', '\'', ' ', '+', ' ', '(', '-', 'b', ')']

def tokens : List Placed :=
  [⟨.string "é", 1⟩, ⟨.op .add, 5⟩, ⟨.openParen, 7⟩, ⟨.op .sub, 8⟩, ⟨.ident "b", 9⟩,
    ⟨.closeParen, 10⟩]

def tree : Expr :=
  .binary .add (.literal (.string "é") 1) (.unary .neg (.ident "b" 9) 8)

def declaring : Declaring where
  module := ⟨["Empty.rmod"], .ofBytes [], ⟨"Empty", none, [], []⟩, [], [], 1⟩
  type := ⟨"Empty", none, .object, [], [], []⟩

theorem parse_signed : parse text = .ok tree := by
  have split : tokenize text = .ok ⟨tokens, 11⟩ := by
    have split : scan 1 ['\'', 'é', '\'', ' ', '+', ' ', '(', '-', 'b', ')'] = .ok tokens := by
      refine scan_cons_ok rfl rfl rfl rfl rfl ?_
      refine (scan_blank rfl).trans ?_
      refine scan_cons_ok rfl rfl rfl rfl rfl ?_
      refine (scan_blank rfl).trans ?_
      repeat refine scan_cons_ok rfl rfl rfl rfl rfl ?_
      exact scan_nil _
    rw [tokenize, text, String.toList_ofList, split]
    rfl
  have left : Derives .standard 0 [⟨.string "é", 1⟩] (.level 5 (.literal (.string "é") 1)) :=
    (Derives.literal rfl).level_of_primary (by decide)
  have negative : Derives .standard 2 [⟨.op .sub, 8⟩, ⟨.ident "b", 9⟩]
      (.level 0 (.unary .neg (.ident "b" 9) 8)) :=
    (Derives.sign rfl (by decide) (.selection (.primary .ident))).level_of_unary (by decide)
  have right : Derives .standard 1
      (⟨.openParen, 7⟩ :: ([⟨.op .sub, 8⟩, ⟨.ident "b", 9⟩] ++ [⟨.closeParen, 10⟩]))
      (.level 5 (.unary .neg (.ident "b" 9) 8)) :=
    (Derives.parens (by decide) negative).level_of_primary (by decide)
  have chain : Derives .standard 0 tokens (.chain 4 1 tree) :=
    .operator (.operand (by decide) left) rfl (by decide) right
  exact (parse_eq_ok_iff split tree).mpr ((Derives.chain chain).loosen (by decide) (by decide))

theorem compile_text :
    compile declaring .builtin text = .error ⟨.unknownIdentifier "b", 9⟩ := by
  have unknown : identType declaring "b" = .error (.unknownIdentifier "b") := rfl
  rw [compile, parse_signed]
  simp [check, tree, infer, unknown, faultAt, bind, Except.bind]

-- Columns count characters, not bytes, and nothing stands at the column of a parenthesis.
theorem faithful_columns :
    parse text = .ok tree ∧ tree.marks.map Placed.column = [1, 8, 9] ∧
      (tree.marks.map Placed.column).Pairwise (· < ·) ∧
      (∀ node ∈ tree.nodes, ∃ word, node.first.token.Spells word ∧
        word <+: text.toList.drop (node.column - 1)) ∧
      compile declaring .builtin text = .error ⟨.unknownIdentifier "b", 9⟩ ∧
      ∃ e, parse text = .ok e ∧ ∃ node ∈ e.nodes, node.column = 9 := by
  obtain ⟨ofTree, ofFaults⟩ := columns_faithful text
  obtain ⟨nodes, increasing⟩ := ofTree tree parse_signed
  obtain ⟨-, -, -, -, reported⟩ := ofFaults declaring .builtin _ compile_text
  exact ⟨parse_signed, rfl, increasing, fun node member => (nodes node member).2.2, compile_text,
    reported nofun⟩

end Signed

end RuleLint.Rule
