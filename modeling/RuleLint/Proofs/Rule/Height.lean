import Mathlib.Order.Bounds.Basic
import Mathlib.Tactic.Ring
import RuleLint.Proofs.Rule.Parsing

/-!
# How high expressions get

The levels of nesting are counted from the root, and a chain gives its levels back when it ends. But
its operators, like points, are put on top of what was read before them. So on every path from the
root the limit bounds the steps into right operands, operands of unary operators and arguments, but
not the steps to the left (`Derives.right_le`). An expression can therefore be higher than there are
levels: with `d` levels left a selection can add `d` to its first part, and so can the chains of all
six binding levels, one on top of the other (`peak`).
-/

namespace RuleLint.Rule

mutual

def Expr.height : Expr → Nat
  | .literal _ _ => 1
  | .ident _ _ => 1
  | .member target _ => target.height + 1
  | .call _ args _ => Expr.maxHeight args + 1
  | .unary _ operand _ => operand.height + 1
  | .binary _ left right => max left.height right.height + 1

def Expr.maxHeight : List Expr → Nat
  | [] => 0
  | e :: es => max e.height (maxHeight es)

end

theorem Expr.height_pos (e : Expr) : 0 < e.height := by
  cases e <;> exact Nat.succ_pos _

/-! ## Paths -/

/-- From the root of the expression a path leads down, with `l` steps to the left, that is to a left
operand or to what a name is selected from, and with `r` other steps. -/
inductive Expr.Path : Expr → Nat → Nat → Prop
  | root {e : Expr} : Path e 0 0
  | target {target : Expr} {name : String} {l r : Nat} (below : Path target l r) :
      Path (.member target name) (l + 1) r
  | left {op : BinOp} {left right : Expr} {l r : Nat} (below : Path left l r) :
      Path (.binary op left right) (l + 1) r
  | right {op : BinOp} {left right : Expr} {l r : Nat} (below : Path right l r) :
      Path (.binary op left right) l (r + 1)
  | operand {op : UnaryOp} {operand : Expr} {column l r : Nat} (below : Path operand l r) :
      Path (.unary op operand column) l (r + 1)
  | argument {name : String} {args : List Expr} {arg : Expr} {column l r : Nat}
      (member : arg ∈ args) (below : Path arg l r) : Path (.call name args column) l (r + 1)

theorem Expr.height_le_maxHeight {arg : Expr} {args : List Expr} (member : arg ∈ args) :
    arg.height ≤ Expr.maxHeight args := by
  induction member with
  | head args => exact Nat.le_max_left _ _
  | tail e _ ih => exact Nat.le_trans ih (Nat.le_max_right _ _)

theorem Expr.Path.lt_height {e : Expr} {l r : Nat} (path : e.Path l r) : l + r < e.height := by
  induction path with
  | @root e => exact e.height_pos
  | target _ ih | operand _ ih =>
      rw [Expr.height]
      omega
  | left _ ih | right _ ih =>
      rw [Expr.height]
      omega
  | argument member _ ih =>
      have below := Expr.height_le_maxHeight member
      rw [Expr.height]
      omega

mutual

theorem Expr.exists_path (e : Expr) : ∃ l r, e.Path l r ∧ e.height = l + r + 1 := by
  match e with
  | .literal _ _ => exact ⟨0, 0, .root, rfl⟩
  | .ident _ _ => exact ⟨0, 0, .root, rfl⟩
  | .member target _ =>
      obtain ⟨l, r, path, height⟩ := target.exists_path
      exact ⟨l + 1, r, .target path, by rw [Expr.height]; omega⟩
  | .unary _ operand _ =>
      obtain ⟨l, r, path, height⟩ := operand.exists_path
      exact ⟨l, r + 1, .operand path, by rw [Expr.height]; omega⟩
  | .binary _ left right =>
      obtain ⟨l, r, path, height⟩ := left.exists_path
      obtain ⟨l', r', path', height'⟩ := right.exists_path
      rcases Nat.le_total right.height left.height with le | le
      · exact ⟨l + 1, r, .left path, by rw [Expr.height]; omega⟩
      · exact ⟨l', r' + 1, .right path', by rw [Expr.height]; omega⟩
  | .call _ args _ =>
      rcases Expr.exists_path_of_args args with none | ⟨arg, member, l, r, path, height⟩
      · exact ⟨0, 0, .root, by rw [Expr.height, none]⟩
      · exact ⟨l, r + 1, .argument member path, by rw [Expr.height, height]; rfl⟩

theorem Expr.exists_path_of_args (args : List Expr) :
    Expr.maxHeight args = 0 ∨
      ∃ arg ∈ args, ∃ l r, arg.Path l r ∧ Expr.maxHeight args = l + r + 1 := by
  match args with
  | [] => exact .inl rfl
  | e :: es =>
      obtain ⟨l, r, path, height⟩ := e.exists_path
      have first (highest : Expr.maxHeight (e :: es) = e.height) :
          ∃ arg ∈ e :: es, ∃ l r, arg.Path l r ∧ Expr.maxHeight (e :: es) = l + r + 1 :=
        ⟨e, .head es, l, r, path, highest.trans height⟩
      rcases Expr.exists_path_of_args es with none | ⟨arg, member, l', r', path', height'⟩
      · exact .inr (first (by rw [Expr.maxHeight, none, Nat.max_zero]))
      · rcases Nat.le_total (Expr.maxHeight es) e.height with le | le
        · exact .inr (first (Nat.max_eq_left le))
        · exact .inr ⟨arg, .tail e member, l', r', path', (Nat.max_eq_right le).trans height'⟩

end

theorem Expr.height_le_iff {e : Expr} {m : Nat} :
    e.height ≤ m + 1 ↔ ∀ l r, e.Path l r → l + r ≤ m := by
  constructor
  · intro low l r path
    have below := path.lt_height
    omega
  · intro short
    obtain ⟨l, r, path, height⟩ := e.exists_path
    have bound := short l r path
    omega

/-! ## Peaks -/

def peak : Nat → Nat
  | 0 => 1
  | d + 1 => peak d + 7 * (d + 1) + 1

theorem peak_add_le (d m : Nat) : peak d + 8 * m ≤ peak (d + m) := by
  induction m with
  | zero => exact Nat.le_refl _
  | succ m ih =>
      rw [← Nat.add_assoc, peak]
      omega

theorem le_peak (d : Nat) : 1 + 7 * d ≤ peak d := by
  have base := peak_add_le 0 d
  rw [Nat.zero_add, peak] at base
  omega

theorem two_mul_peak (d : Nat) : 2 * peak d = 7 * (d * (d + 1)) + 2 * (d + 1) := by
  induction d with
  | zero => rfl
  | succ d ih =>
      calc 2 * peak (d + 1) = 2 * peak d + 14 * (d + 1) + 2 := by rw [peak]; omega
        _ = 7 * (d * (d + 1)) + 2 * (d + 1) + 14 * (d + 1) + 2 := by rw [ih]
        _ = 7 * ((d + 1) * (d + 1 + 1)) + 2 * (d + 1 + 1) := by ring

theorem peak_maxDepth : peak maxDepth = 57921 := by
  have twice := two_mul_peak maxDepth
  rw [maxDepth] at *
  omega

variable {nesting : Nesting}

/-! ## What the limit bounds -/

def Phrase.Holds (e : Expr) : Phrase → Prop
  | level _ e' | chain _ _ e' | unary e' | selection _ e' | primary e' => e = e'
  | arguments args => e ∈ args

theorem Derives.right_le {n : Nat} {ts : List Placed} {phrase : Phrase}
    (derives : Derives nesting n ts phrase) {e : Expr} (holds : phrase.Holds e) {l r : Nat}
    (path : e.Path l r) (below : n ≤ nesting.limit) : n + r ≤ nesting.limit := by
  -- Only the steps that do not go to the left enter a level.
  induction derives generalizing e l r with
  | operand _ _ ih | chain _ ih | unary _ ih | selection _ ih | primary _ ih =>
      exact ih holds path below
  | operator _ _ fits _ ih ih' =>
      cases holds
      cases path with
      | root => exact below
      | left path => exact ih rfl path below
      | right path =>
          have inside := ih' rfl path fits
          omega
  | sign _ fits _ ih =>
      cases holds
      cases path with
      | root => exact below
      | operand path =>
          have inside := ih rfl path fits
          omega
  | member _ _ ih =>
      cases holds
      cases path with
      | root => exact below
      | target path => exact ih rfl path below
  | literal =>
      cases holds
      cases path
      exact below
  | ident =>
      cases holds
      cases path
      exact below
  | parens fits _ ih =>
      have inside := ih holds path fits
      omega
  | emptyCall =>
      cases holds
      cases path with
      | root => exact below
      | argument member _ => cases member
  | call fits _ ih =>
      cases holds
      cases path with
      | root => exact below
      | argument member path =>
          have inside := ih member path fits
          omega
  | argument _ ih =>
      cases holds with
      | head => exact ih rfl path below
      | tail _ member => cases member
  | arguments _ _ ih ih' =>
      cases holds with
      | head => exact ih rfl path below
      | tail _ member => exact ih' member path below

/-! ## No expression is higher -/

def Phrase.Within (d : Nat) : Phrase → Prop
  | level k e => e.height + k * d ≤ peak d
  | chain k i e => i ≤ d ∧ e.height + (k + 1) * d ≤ peak d + i
  | unary e => e.height + BinOp.levels * d ≤ peak d
  | selection i e => i ≤ d ∧ e.height + 7 * d ≤ peak d + i
  | primary e => e.height + 7 * d ≤ peak d
  | arguments args => Expr.maxHeight args ≤ peak d

theorem Derives.within {n : Nat} {ts : List Placed} {phrase : Phrase}
    (derives : Derives nesting n ts phrase) :
    ∀ d, n + d = nesting.limit → phrase.Within d := by
  induction derives with
  | operand _ _ ih =>
      intro d left
      exact ⟨Nat.zero_le d, ih d left⟩
  | @operator n k i _ _ _ op _ _ _ level deeper _ ih ih' =>
      intro d left
      obtain ⟨m, rfl⟩ : ∃ m, d = m + (i + 1) := ⟨d - (i + 1), by omega⟩
      obtain ⟨-, before⟩ := ih (m + (i + 1)) left
      have after : _ ≤ _ := ih' m (by omega)
      have lower : k + 1 ≤ 6 := level ▸ op.level_lt_levels
      -- The right operand has `i + 1` levels less, which costs it more than the chain adds to it.
      have growth := peak_add_le m (i + 1)
      have spread : (k + 1) * (m + (i + 1)) ≤ (k + 1) * m + 6 * (i + 1) := by
        rw [Nat.mul_add]
        exact Nat.add_le_add_left (Nat.mul_le_mul_right _ lower) _
      refine ⟨by omega, ?_⟩
      rw [Expr.height]
      omega
  | @chain n k i ts e _ ih =>
      intro d left
      obtain ⟨le, high⟩ := ih d left
      rw [Nat.succ_mul] at high
      change _ ≤ _
      omega
  | unary _ ih => exact ih
  | sign _ _ _ ih =>
      intro d left
      obtain ⟨m, rfl⟩ : ∃ m, d = m + 1 := ⟨d - 1, by omega⟩
      have inside : _ ≤ _ := ih m (by omega)
      change _ ≤ _
      rw [Expr.height, peak]
      rw [BinOp.levels] at *
      omega
  | selection _ ih =>
      intro d left
      obtain ⟨le, high⟩ := ih d left
      change _ ≤ _
      rw [BinOp.levels]
      omega
  | primary _ ih =>
      intro d left
      exact ⟨Nat.zero_le d, ih d left⟩
  | member _ _ ih =>
      intro d left
      obtain ⟨-, high⟩ := ih d left
      refine ⟨by omega, ?_⟩
      rw [Expr.height]
      omega
  | literal => exact fun d _ => le_peak d
  | ident => exact fun d _ => le_peak d
  | parens _ _ ih =>
      intro d left
      obtain ⟨m, rfl⟩ : ∃ m, d = m + 1 := ⟨d - 1, by omega⟩
      have inside : _ ≤ _ := ih m (by omega)
      change _ ≤ _
      rw [peak]
      omega
  | emptyCall => exact fun d _ => le_peak d
  | call _ _ ih =>
      intro d left
      obtain ⟨m, rfl⟩ : ∃ m, d = m + 1 := ⟨d - 1, by omega⟩
      have inside : _ ≤ _ := ih m (by omega)
      change _ ≤ _
      rw [Expr.height, peak]
      omega
  | argument _ ih =>
      intro d left
      have only : _ ≤ _ := ih d left
      change max _ 0 ≤ _
      omega
  | arguments _ _ ih ih' =>
      intro d left
      have first : _ ≤ _ := ih d left
      have others : _ ≤ _ := ih' d left
      change max _ _ ≤ _
      omega

/-! ## Texts of high expressions -/

def Spells (cs : List Char) (P : List Placed → Prop) : Prop :=
  ∀ column rest, ∃ ts, P ts ∧
    scan column (cs ++ rest) = (ts ++ ·) <$> scan (column + cs.length) rest

variable {cs cs' : List Char} {P Q : List Placed → Prop}

theorem Spells.append (first : Spells cs P)
    (next : ∀ ts, P ts → Spells cs' fun ts' => Q (ts ++ ts')) : Spells (cs ++ cs') Q := by
  intro column rest
  obtain ⟨ts, holds, split⟩ := first column (cs' ++ rest)
  obtain ⟨ts', holds', split'⟩ := next ts holds (column + cs.length) rest
  refine ⟨ts ++ ts', holds', ?_⟩
  rw [List.append_assoc, split, split', List.length_append, ← Nat.add_assoc]
  cases scan (column + cs.length + cs'.length) rest with
  | ok tokens => exact congrArg Except.ok (List.append_assoc ts ts' tokens).symm
  | error d => rfl

theorem Spells.mono (spells : Spells cs P) (imp : ∀ ts, P ts → Q ts) : Spells cs Q := by
  intro column rest
  obtain ⟨ts, holds, split⟩ := spells column rest
  exact ⟨ts, imp ts holds, split⟩

def Single (token : Token) (ts : List Placed) : Prop := ∃ column, ts = [⟨token, column⟩]

theorem spells_single {token : Token} {c : Char} (cs : List Char) (filled : Text.isBlank c = false)
    (read : ∀ rest, ∃ lexeme : Lexeme (c :: (cs ++ ' ' :: rest)),
      Lexeme.read c (cs ++ ' ' :: rest) = .ok lexeme ∧ lexeme.token = token ∧
        lexeme.text = c :: cs ∧ lexeme.rest = ' ' :: rest) :
    Spells (c :: (cs ++ [' '])) (Single token) := by
  intro column rest
  obtain ⟨lexeme, read, isToken, text, after⟩ := read rest
  refine ⟨[⟨token, column⟩], ⟨column, rfl⟩, ?_⟩
  have blank : Text.isBlank ' ' := rfl
  rw [List.cons_append, List.append_assoc, List.singleton_append, scan_cons filled read, isToken,
    text, after, scan_blank blank]
  have columns : column + (c :: cs).length + 1 = column + (c :: (cs ++ [' '])).length := by
    simp only [List.length_cons, List.length_append, List.length_nil]
    omega
  rw [columns]
  rfl

theorem spells_a : Spells ['a', ' '] (Single (.ident "a")) :=
  spells_single [] rfl fun rest => ⟨.word 'a' (' ' :: rest), rfl, rfl, rfl, rfl⟩

theorem spells_dot : Spells ['.', ' '] (Single .dot) :=
  spells_single [] rfl fun rest => ⟨.one .dot '.' (' ' :: rest), rfl, rfl, rfl, rfl⟩

theorem spells_openParen : Spells ['(', ' '] (Single .openParen) :=
  spells_single [] rfl fun rest => ⟨.one .openParen '(' (' ' :: rest), rfl, rfl, rfl, rfl⟩

theorem spells_closeParen : Spells [')', ' '] (Single .closeParen) :=
  spells_single [] rfl fun rest => ⟨.one .closeParen ')' (' ' :: rest), rfl, rfl, rfl, rfl⟩

def BinOp.ofLevel : Nat → BinOp
  | 0 => or
  | 1 => and
  | 2 => eq
  | 3 => lt
  | 4 => add
  | _ => mul

theorem spells_op (op : BinOp) : Spells (op.symbol.toList ++ [' ']) (Single (.op op)) := by
  cases op with
  | or | and | eq | ne | le | ge =>
      exact spells_single [_] rfl fun rest => ⟨.two _ _ _ _, rfl, rfl, rfl, rfl⟩
  | lt | gt | add | sub | mul | div | mod =>
      exact spells_single [] rfl fun rest => ⟨.one _ _ _, rfl, rfl, rfl, rfl⟩

def Shows (nesting : Nesting) (n : Nat) (phrase : Expr → Phrase) (h : Nat)
    (ts : List Placed) : Prop :=
  ∃ e, e.height = h ∧ Derives nesting n ts (phrase e)

def inCall (cs : List Char) : List Char := ['a', ' '] ++ (['(', ' '] ++ (cs ++ [')', ' ']))

def withPoints (cs : List Char) : Nat → List Char
  | 0 => cs
  | i + 1 => withPoints cs i ++ (['.', ' '] ++ ['a', ' '])

def withOperands (op : BinOp) (cs : List Char) : Nat → List Char
  | 0 => cs
  | i + 1 => withOperands op cs i ++ ((op.symbol.toList ++ [' ']) ++ ['a', ' '])

def withLevels (i : Nat) (cs : List Char) : Nat → List Char
  | 0 => cs
  | j + 1 => withOperands (.ofLevel (5 - j)) (withLevels i cs j) i

/-- The text of an expression that is as high as `d` levels let it be. -/
def spire : Nat → List Char
  | 0 => ['a', ' ']
  | d + 1 => withLevels (d + 1) (withPoints (inCall (spire d)) (d + 1)) BinOp.levels

theorem spells_name {n : Nat} : Spells ['a', ' '] (Shows nesting n .primary 1) := by
  refine spells_a.mono ?_
  rintro _ ⟨column, rfl⟩
  exact ⟨.ident "a" column, rfl, .ident⟩

theorem spells_inCall {n h : Nat} (spells : Spells cs (Shows nesting (n + 1) (.level 0) h))
    (fits : n + 1 ≤ nesting.limit) : Spells (inCall cs) (Shows nesting n .primary (h + 1)) := by
  refine spells_a.append ?_
  rintro _ ⟨column, rfl⟩
  refine spells_openParen.append ?_
  rintro _ ⟨column', rfl⟩
  refine spells.append ?_
  rintro ts ⟨e, height, inside⟩
  refine spells_closeParen.mono ?_
  rintro _ ⟨column'', rfl⟩
  refine ⟨.call "a" [e] column, ?_, .call fits (.argument inside)⟩
  rw [Expr.height, ← height]
  exact congrArg (· + 1) (Nat.max_zero _)

theorem spells_withPoints {n h i : Nat} (spells : Spells cs (Shows nesting n .primary h))
    (fits : n + i ≤ nesting.limit) :
    Spells (withPoints cs i) (Shows nesting n (.selection i) (h + i)) := by
  induction i with
  | zero =>
      refine spells.mono ?_
      rintro ts ⟨e, rfl, derives⟩
      exact ⟨e, rfl, .primary derives⟩
  | succ i ih =>
      refine (ih (by omega)).append ?_
      rintro ts ⟨e, height, selected⟩
      refine spells_dot.append ?_
      rintro _ ⟨column, rfl⟩
      refine spells_a.mono ?_
      rintro _ ⟨column', rfl⟩
      refine ⟨.member e "a", ?_, .member selected fits⟩
      rw [Expr.height, height]
      rfl

theorem spells_selected {n h i k : Nat} (spells : Spells cs (Shows nesting n .primary h))
    (fits : n + i ≤ nesting.limit) (bound : k ≤ BinOp.levels) :
    Spells (withPoints cs i) (Shows nesting n (.level k) (h + i)) := by
  refine (spells_withPoints spells fits).mono ?_
  rintro ts ⟨e, height, selected⟩
  exact ⟨e, height, selected.level_of_selection bound⟩

theorem spells_withOperands {n k h i : Nat} {op : BinOp}
    (spells : Spells cs (Shows nesting n (.level (k + 1)) h)) (level : op.level = k)
    (fits : n + i ≤ nesting.limit) :
    Spells (withOperands op cs i) (Shows nesting n (.chain k i) (h + i)) := by
  have lower : k < BinOp.levels := level ▸ op.level_lt_levels
  induction i with
  | zero =>
      refine spells.mono ?_
      rintro ts ⟨e, rfl, derives⟩
      exact ⟨e, rfl, .operand lower derives⟩
  | succ i ih =>
      refine (ih (by omega)).append ?_
      rintro ts ⟨e, height, chain⟩
      refine (spells_op op).append ?_
      rintro _ ⟨column, rfl⟩
      refine spells_a.mono ?_
      rintro _ ⟨column', rfl⟩
      refine ⟨.binary op e (.ident "a" column'), ?_,
        .operator chain level fits (Derives.ident.level_of_primary lower)⟩
      have positive := e.height_pos
      rw [Expr.height, Expr.height]
      omega

theorem BinOp.level_ofLevel {k : Nat} (lower : k < BinOp.levels) : (BinOp.ofLevel k).level = k := by
  revert k
  decide

theorem spells_withLevels {n h i j : Nat}
    (spells : Spells cs (Shows nesting n (.level BinOp.levels) h)) (few : j ≤ BinOp.levels)
    (fits : n + i ≤ nesting.limit) :
    Spells (withLevels i cs j) (Shows nesting n (.level (BinOp.levels - j)) (h + j * i)) := by
  induction j with
  | zero => simpa [withLevels] using spells
  | succ j ih =>
      have tighter := ih (by omega)
      rw [BinOp.levels] at *
      rw [show 6 - j = 5 - j + 1 by omega] at tighter
      have level : (BinOp.ofLevel (5 - j)).level = 5 - j :=
        BinOp.level_ofLevel (by rw [BinOp.levels]; omega)
      refine (spells_withOperands tighter level fits).mono ?_
      rintro ts ⟨e, height, chain⟩
      rw [show 6 - (j + 1) = 5 - j by omega, Nat.succ_mul, ← Nat.add_assoc]
      exact ⟨e, height, .chain chain⟩

theorem spells_spire {n d : Nat} (left : n + d = nesting.limit) :
    Spells (spire d) (Shows nesting n (.level 0) (peak d)) := by
  induction d generalizing n with
  | zero => exact spells_selected spells_name (Nat.le_of_eq left) (Nat.zero_le _)
  | succ d ih =>
      have first := spells_inCall (ih (n := n + 1) (by omega)) (by omega)
      have selected := spells_selected first (Nat.le_of_eq left) (Nat.le_refl _)
      have whole := spells_withLevels selected (Nat.le_refl _) (Nat.le_of_eq left)
      have height : peak d + 1 + (d + 1) + BinOp.levels * (d + 1) = peak (d + 1) := by
        rw [peak, BinOp.levels]
        omega
      rwa [Nat.sub_self, height] at whole

theorem Spells.parse {h : Nat} (spells : Spells cs (Shows .standard 0 (.level 0) h)) :
    ∃ e, parse (.ofList cs) = .ok e ∧ e.height = h := by
  obtain ⟨ts, ⟨e, height, derives⟩, split⟩ := spells 1 []
  have tokens : tokenize (.ofList cs) = .ok ⟨ts, (String.ofList cs).length + 1⟩ := by
    rw [List.append_nil, scan_nil] at split
    rw [tokenize, String.toList_ofList, split]
    simp
  exact ⟨e, (parse_eq_ok_iff tokens e).mpr derives, height⟩

theorem isGreatest_height :
    IsGreatest {h | ∃ input e, parse input = .ok e ∧ e.height = h} 57921 := by
  rw [← peak_maxDepth]
  constructor
  · have spells : Spells (spire maxDepth) (Shows .standard 0 (.level 0) (peak maxDepth)) :=
      spells_spire (Nat.zero_add _)
    obtain ⟨e, parsed, height⟩ := spells.parse
    exact ⟨_, e, parsed, height⟩
  · rintro _ ⟨input, e, parsed, rfl⟩
    obtain ⟨lexed, tokens⟩ := exists_tokenize_of_parse parsed
    have within : _ ≤ _ :=
      ((parse_eq_ok_iff tokens e).mp parsed).within maxDepth (Nat.zero_add _)
    rwa [Nat.zero_mul] at within

/-- On every path of an expression that is parsed the steps other than to the left are no more than
the levels. Whether the height is no more than the levels and one depends on the steps to the left
too, but it is bounded. -/
theorem height_of_parse {input : String} {e : Expr} (parsed : parse input = .ok e) :
    (∀ l r, e.Path l r → r ≤ maxDepth) ∧
      (e.height ≤ maxDepth + 1 ↔ ∀ l r, e.Path l r → l + r ≤ maxDepth) ∧ e.height ≤ 57921 := by
  obtain ⟨lexed, tokens⟩ := exists_tokenize_of_parse parsed
  have derives := (parse_eq_ok_iff tokens e).mp parsed
  refine ⟨fun l r path => ?_, Expr.height_le_iff, isGreatest_height.2 ⟨input, e, parsed, rfl⟩⟩
  have inside := derives.right_le rfl path (Nat.zero_le _)
  rwa [Nat.zero_add] at inside

def overhang : String := .ofList (withOperands .add (withPoints ['a', ' '] maxDepth) 1)

theorem parse_overhang : ∃ e, parse overhang = .ok e ∧ e.height = maxDepth + 2 := by
  have selected : Spells (withPoints ['a', ' '] maxDepth)
      (Shows .standard 0 (.level 5) (1 + maxDepth)) :=
    spells_selected spells_name (Nat.le_of_eq (Nat.zero_add _)) (by decide)
  have sum : Spells (withOperands .add (withPoints ['a', ' '] maxDepth) 1)
      (Shows .standard 0 (.level 0) (1 + maxDepth + 1)) := by
    refine (spells_withOperands selected rfl (by decide)).mono ?_
    rintro ts ⟨e, height, chain⟩
    exact ⟨e, height, (Derives.chain chain).loosen (Nat.zero_le _) (by decide)⟩
  exact sum.parse

theorem overhang_path : ∃ e, parse overhang = .ok e ∧ (∀ l r, e.Path l r → r ≤ maxDepth) ∧
    ¬ ∀ l r, e.Path l r → l + r ≤ maxDepth := by
  obtain ⟨e, parsed, height⟩ := parse_overhang
  obtain ⟨right, low, -⟩ := height_of_parse parsed
  refine ⟨e, parsed, right, fun short => ?_⟩
  have bound := low.mpr short
  omega

/-- The levels do not bound the height. -/
theorem height_exceeds_maxDepth :
    ¬ ∀ input e, parse input = .ok e → e.height ≤ maxDepth + 1 := by
  intro each
  obtain ⟨e, parsed, height⟩ := parse_overhang
  have bound := each overhang e parsed
  omega

end RuleLint.Rule
