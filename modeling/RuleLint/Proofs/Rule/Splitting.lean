import RuleLint.Proofs.Rule.Spelling

/-!
# Splitting a text into tokens

A text is split into tokens exactly as they are laid out in it (`scan_eq_ok_iff`): every token
stands at its column in one of its spellings, as long as it can be, and between tokens there are
only blanks. Where a text cannot be split, it can up to the character at which its fault is reported
(`laid_of_error`).
-/

namespace RuleLint.Rule

open Text (isBlank)

/-- From `column` on, the characters are the tokens, each at its column and each as long as it can
be, with blanks around them or none. -/
inductive Laid : Nat → List Placed → List Char → Prop
  | nil {column : Nat} : Laid column [] []
  | blank {column : Nat} {ts : List Placed} {c : Char} {cs : List Char} (blank : isBlank c = true)
      (others : Laid (column + 1) ts cs) : Laid column ts (c :: cs)
  | token {column : Nat} {token : Token} {ts : List Placed} {word rest : List Char}
      (spells : token.Spells word) (longest : ∀ c ∈ rest.head?, token.goesOn c = false)
      (others : Laid (column + word.length) ts rest) :
      Laid column (⟨token, column⟩ :: ts) (word ++ rest)

/-! ## What is read is spelled -/

def Lexeme.Sound {input : List Char} (lexeme : Lexeme input) : Prop :=
  lexeme.token.Spells lexeme.text ∧ ∀ c ∈ lexeme.rest.head?, lexeme.token.goesOn c = false

namespace Lexeme

theorem stops_dropWhile {p : Char → Bool} {cs : List Char} :
    ∀ c ∈ (cs.dropWhile p).head?, p c = false := by
  intro c first
  have stop := List.head?_dropWhile_not p cs
  rw [first] at stop
  exact stop

theorem sound_word {c : Char} (cs : List Char) (start : isWordStart c = true) :
    (word c cs).Sound := by
  have isWord : IsWord (String.ofList (c :: cs.takeWhile isWordChar)) :=
    ⟨c, _, String.toList_ofList, start, List.all_takeWhile⟩
  have spells := Token.Spells.word isWord
  rw [String.toList_ofList] at spells
  refine ⟨spells, fun d first => ?_⟩
  exact (Token.goesOn_ofWord _ d).trans (stops_dropWhile d first)

theorem sound_number {c : Char} {cs : List Char} {lexeme : Lexeme (c :: cs)}
    (read : number c cs = .ok lexeme) : lexeme.Sound := by
  rw [number] at read
  split at read
  · rename_i value means
    cases read
    exact ⟨.number means, stops_dropWhile⟩
  · cases read

theorem sound_quoted {q : Char} {cs : List Char} {lexeme : Lexeme (q :: cs)}
    (quotes : q = '\'' ∨ q = '"') (read : quoted q cs = .ok lexeme) : lexeme.Sound := by
  rw [quoted] at read
  split at read
  · cases read
  · rename_i close rest after
    cases read
    have closes : close = q := by
      have stop : (close != q) = false := stops_dropWhile close (by rw [after]; rfl)
      simpa using stop
    have closed : q ∉ (String.ofList (cs.takeWhile (· != q))).toList := by
      rw [String.toList_ofList]
      intro inside
      have other := List.mem_takeWhile_imp inside
      simp at other
    have spells := Token.Spells.string quotes closed
    rw [String.toList_ofList] at spells
    exact ⟨closes ▸ spells, fun _ _ => rfl⟩

theorem sound_one {token : Token} {c : Char} {rest : List Char} (mark : token.isMark = true)
    (written : token.text.toList = [c]) (longest : ∀ d ∈ rest.head?, token.goesOn d = false) :
    (one token c rest).Sound := by
  have spells := Token.Spells.mark token mark
  rw [written] at spells
  exact ⟨spells, longest⟩

theorem sound_two {token : Token} {c d : Char} {rest : List Char} (mark : token.isMark = true)
    (written : token.text.toList = [c, d]) (longest : ∀ c, token.goesOn c = false) :
    (two token c d rest).Sound := by
  have spells := Token.Spells.mark token mark
  rw [written] at spells
  exact ⟨spells, fun c _ => longest c⟩

theorem sound_mark {c : Char} {cs : List Char} {lexeme : Lexeme (c :: cs)}
    (read : mark c cs = .ok lexeme) : lexeme.Sound := by
  have apart (other : ∀ rest, cs = '=' :: rest → False) :
      ∀ d ∈ cs.head?, decide (d = '=') = false := by
    intro d first
    rw [decide_eq_false_iff_not]
    rintro rfl
    exact other _ (List.eq_cons_of_mem_head? first)
  rw [mark.eq_def] at read
  split at read
  case h_1 | h_2 | h_3 | h_4 | h_5 | h_6 =>
    cases read
    exact sound_two rfl rfl fun _ => rfl
  case h_7 other | h_8 other | h_9 other =>
    cases read
    exact sound_one rfl rfl (apart other)
  case h_10 | h_11 | h_12 | h_13 | h_14 | h_15 | h_16 | h_17 | h_18 =>
    cases read
    exact sound_one rfl rfl fun _ _ => rfl
  case h_19 | h_20 | h_21 | h_22 => cases read

theorem sound_read {c : Char} {cs : List Char} {lexeme : Lexeme (c :: cs)}
    (read : Lexeme.read c cs = .ok lexeme) : lexeme.Sound := by
  rw [Lexeme.read] at read
  split_ifs at read with start digit quotes
  · cases read
    exact sound_word cs start
  · exact sound_number read
  · exact sound_quoted quotes read
  · exact sound_mark read

end Lexeme

/-! ## What is laid out is read -/

theorem scan_fault {column : Nat} {c : Char} {cs : List Char} {fault : Fault}
    (filled : isBlank c = false) (read : Lexeme.read c cs = .error fault) :
    scan column (c :: cs) = .error ⟨fault, column⟩ := by
  rw [scan.eq_def]
  simp only [filled, read, Bool.false_eq_true, if_false]

theorem scan_cons_error {column width : Nat} {c : Char} {cs rest : List Char} {d : Diagnostic}
    {lexeme : Lexeme (c :: cs)} (filled : isBlank c = false) (read : Lexeme.read c cs = .ok lexeme)
    (covers : lexeme.text.length = width) (leaves : lexeme.rest = rest)
    (others : scan (column + width) rest = .error d) : scan column (c :: cs) = .error d := by
  rw [scan_cons filled read, covers, leaves, others]
  rfl

theorem laid_of_scan {column : Nat} {cs : List Char} {ts : List Placed}
    (split : scan column cs = .ok ts) : Laid column ts cs := by
  induction column, cs using scan.induct generalizing ts with
  | case1 column =>
      rw [scan_nil] at split
      cases split
      exact .nil
  | case2 column c cs blank ih =>
      rw [scan_blank blank] at split
      exact .blank blank (ih split)
  | case3 column c cs filled fault read =>
      rw [scan_fault (by simpa using filled) read] at split
      cases split
  | case4 column c cs filled lexeme read ih =>
      rw [scan_cons (by simpa using filled) read] at split
      cases others : scan (column + lexeme.text.length) lexeme.rest with
      | error d =>
          rw [others] at split
          cases split
      | ok ts' =>
          rw [others] at split
          cases split
          obtain ⟨spells, longest⟩ := Lexeme.sound_read read
          have laid := Laid.token spells longest (ih others)
          rwa [lexeme.append_rest] at laid

section

variable {column : Nat} {ts : List Placed} {cs : List Char}

theorem Laid.scan (laid : Laid column ts cs) : scan column cs = .ok ts := by
  induction laid with
  | nil => exact scan_nil _
  | blank blank _ ih => rw [scan_blank blank, ih]
  | token spells longest _ ih =>
      obtain ⟨c, cs, rfl, filled, lexeme, read, isToken, text, after⟩ := spells.readAs longest
      exact scan_cons_ok filled read isToken (congrArg List.length text) after ih

theorem scan_eq_ok_iff : Rule.scan column cs = .ok ts ↔ Laid column ts cs :=
  ⟨laid_of_scan, Laid.scan⟩

/-! ## Columns -/

theorem Laid.column_mem (laid : Laid column ts cs) :
    ∀ t ∈ ts, column ≤ t.column ∧ t.column < column + cs.length := by
  induction laid with
  | nil => nofun
  | blank _ _ ih =>
      intro t member
      have bounds := ih t member
      rw [List.length_cons]
      omega
  | @token column token ts word rest spells _ _ ih =>
      obtain ⟨c, cs, rfl⟩ := spells.exists_cons
      rw [List.forall_mem_cons, List.length_append, List.length_cons]
      refine ⟨by simp only; omega, fun t member => ?_⟩
      have bounds := ih t member
      rw [List.length_cons] at bounds
      omega

theorem Laid.increasing (laid : Laid column ts cs) :
    (ts.map Placed.column ++ [column + cs.length]).Pairwise (· < ·) := by
  induction laid with
  | nil => exact List.pairwise_singleton _ _
  | @blank column ts c cs _ _ ih =>
      rw [List.length_cons, Nat.add_comm cs.length 1, ← Nat.add_assoc]
      exact ih
  | @token column token ts word rest spells _ others ih =>
      obtain ⟨c, cs, rfl⟩ := spells.exists_cons
      rw [List.length_append, ← Nat.add_assoc, List.map_cons, List.cons_append]
      refine List.pairwise_cons.mpr ⟨?_, ih⟩
      rw [List.length_cons, List.forall_mem_append, List.forall_mem_map, List.forall_mem_singleton]
      refine ⟨fun t member => ?_, by simp only; omega⟩
      have bounds := others.column_mem t member
      rw [List.length_cons] at bounds
      simp only
      omega

theorem Laid.spelled (laid : Laid column ts cs) :
    ∀ t ∈ ts, ∃ word, t.token.Spells word ∧ word <+: cs.drop (t.column - column) := by
  induction laid with
  | nil => nofun
  | @blank column ts c cs _ others ih =>
      intro t member
      obtain ⟨word, spells, begins⟩ := ih t member
      have bounds := others.column_mem t member
      refine ⟨word, spells, ?_⟩
      rwa [show t.column - column = t.column - (column + 1) + 1 by omega, List.drop_succ_cons]
  | @token column token ts word rest spells _ others ih =>
      rw [List.forall_mem_cons]
      refine ⟨⟨word, spells, ?_⟩, fun t member => ?_⟩
      · simp only [Nat.sub_self, List.drop_zero]
        exact List.prefix_append word rest
      · obtain ⟨word', spells', begins⟩ := ih t member
        have bounds := others.column_mem t member
        refine ⟨word', spells', ?_⟩
        rwa [show t.column - column = word.length + (t.column - (column + word.length)) by omega,
          List.drop_length_add_append]

end

/-! ## Where a text cannot be split -/

theorem laid_of_error {column : Nat} {cs : List Char} {d : Diagnostic}
    (refused : scan column cs = .error d) :
    ∃ front c rest ts, cs = front ++ c :: rest ∧ d.column = column + front.length ∧
      Laid column ts front ∧ isBlank c = false ∧ Lexeme.read c rest = .error d.fault := by
  induction column, cs using scan.induct with
  | case1 column =>
      rw [scan_nil] at refused
      cases refused
  | case2 column c cs blank ih =>
      rw [scan_blank blank] at refused
      obtain ⟨front, c', rest, ts, rfl, at', laid, filled, read⟩ := ih refused
      refine ⟨c :: front, c', rest, ts, rfl, ?_, .blank blank laid, filled, read⟩
      rw [at', List.length_cons]
      omega
  | case3 column c cs filled fault read =>
      have filled : isBlank c = false := by simpa using filled
      rw [scan_fault filled read] at refused
      cases refused
      exact ⟨[], c, cs, [], rfl, rfl, .nil, filled, read⟩
  | case4 column c cs filled lexeme read ih =>
      have filled : isBlank c = false := by simpa using filled
      cases others : scan (column + lexeme.text.length) lexeme.rest with
      | ok ts =>
          rw [scan_cons filled read, others] at refused
          cases refused
      | error d' =>
          rw [scan_cons_error filled read rfl rfl others] at refused
          cases refused
          obtain ⟨front, c', rest, ts, after, at', laid, filled', read'⟩ := ih others
          obtain ⟨spells, longest⟩ := Lexeme.sound_read read
          -- The lexeme was read before the whole rest, and what is left of that begins alike.
          have longest' : ∀ c ∈ front.head?, lexeme.token.goesOn c = false := by
            intro c first
            refine longest c ?_
            rw [after, List.head?_append, first]
            rfl
          refine ⟨lexeme.text ++ front, c', rest, _, ?_, ?_, .token spells longest' laid, filled',
            read'⟩
          · rw [List.append_assoc, ← after, lexeme.append_rest]
          · rw [at', List.length_append, Nat.add_assoc]

/-! ## What splitting gives -/

theorem tokenize_eq_ok_iff {input : String} {lexed : Lexed} :
    tokenize input = .ok lexed ↔
      lexed.stop = input.length + 1 ∧ Laid 1 lexed.tokens input.toList := by
  obtain ⟨ts, stop⟩ := lexed
  rw [← scan_eq_ok_iff, tokenize]
  cases scan 1 input.toList with
  | error d => simp [bind, Except.bind]
  | ok ts' => simp [bind, Except.bind, pure, Except.pure, and_comm, eq_comm]

theorem tokenize_eq_error {input : String} {d : Diagnostic} (refused : tokenize input = .error d) :
    scan 1 input.toList = .error d := by
  rw [tokenize] at refused
  cases split : scan 1 input.toList with
  | error d' =>
      rw [split] at refused
      cases refused
      rfl
  | ok ts =>
      rw [split] at refused
      cases refused

/-- A text is split into just the tokens that are laid out in it, up to the column after its end. If
it cannot be split, what comes before the column of the fault can. -/
theorem tokenize_lossless (input : String) :
    (∀ lexed, tokenize input = .ok lexed ↔
      lexed.stop = input.length + 1 ∧ Laid 1 lexed.tokens input.toList) ∧
    (∀ lexed, tokenize input = .ok lexed →
      (lexed.tokens.map Placed.column ++ [lexed.stop]).Pairwise (· < ·)) ∧
    ∀ d, tokenize input = .error d → 1 ≤ d.column ∧ d.column ≤ input.length ∧
      ∃ lexed, tokenize (.ofList (input.toList.take (d.column - 1))) = .ok lexed := by
  refine ⟨fun lexed => tokenize_eq_ok_iff, fun lexed split => ?_, fun d refused => ?_⟩
  · obtain ⟨stop, laid⟩ := tokenize_eq_ok_iff.mp split
    rw [stop, Nat.add_comm, ← String.length_toList]
    exact laid.increasing
  · obtain ⟨front, c, rest, ts, whole, at', laid, -⟩ := laid_of_error (tokenize_eq_error refused)
    have length : input.length = front.length + (rest.length + 1) := by
      rw [← String.length_toList, whole, List.length_append, List.length_cons]
    refine ⟨by omega, by omega, ⟨ts, front.length + 1⟩, tokenize_eq_ok_iff.mpr ?_⟩
    rw [whole, show d.column - 1 = front.length by omega, List.take_left, String.toList_ofList,
      String.length_ofList]
    exact ⟨rfl, laid⟩

namespace Crammed

def front : List Char :=
  ['n', 'u', 'l', 'l', '_', '>', '=', '2', '.', '5', '!', '=', '\'', 'a', '"', '\'']

def tokens : List Placed :=
  [⟨.ident "null_", 1⟩, ⟨.op .ge, 6⟩, ⟨.number (.ofDigits ['2'] ['5']), 8⟩, ⟨.op .ne, 11⟩,
    ⟨.string "a\"", 13⟩]

def text : String := .ofList (front ++ ['=', '1'])

theorem tokenize_front : tokenize (.ofList front) = .ok ⟨tokens, 17⟩ := by
  have split : scan 1 front = .ok tokens := by
    repeat refine scan_cons_ok rfl rfl rfl rfl rfl ?_
    exact scan_nil _
  rw [tokenize, String.toList_ofList, split]
  rfl

theorem tokenize_text : tokenize text = .error ⟨.halfOperator '=', 17⟩ := by
  have split : scan 1 (front ++ ['=', '1']) = .error ⟨.halfOperator '=', 17⟩ := by
    repeat refine scan_cons_error rfl rfl rfl rfl ?_
    exact scan_fault rfl rfl
  rw [tokenize, text, String.toList_ofList, split]
  rfl

/-- An equals sign after the string is the first character that begins no token. -/
theorem splits_front :
    tokenize (.ofList front) = .ok ⟨tokens, 17⟩ ∧ Laid 1 tokens (String.ofList front).toList ∧
      (tokens.map Placed.column ++ [17]).Pairwise (· < ·) ∧
      tokenize text = .error ⟨.halfOperator '=', 17⟩ ∧
      ∃ lexed, tokenize (.ofList (text.toList.take 16)) = .ok lexed :=
  ⟨tokenize_front, (((tokenize_lossless _).1 _).mp tokenize_front).2,
    (tokenize_lossless _).2.1 _ tokenize_front, tokenize_text,
    ((tokenize_lossless text).2.2 _ tokenize_text).2.2⟩

end Crammed

end RuleLint.Rule
