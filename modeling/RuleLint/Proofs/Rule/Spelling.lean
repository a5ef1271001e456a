import Mathlib.Data.List.Chain
import RuleLint.Proofs.Rule.Parsing
import RuleLint.Proofs.Rule.SimpleNames

namespace RuleLint.Rule

open Text (isBlank)

/-! ## Spellings -/

namespace Token

def isMark : Token → Bool
  | op _ | not | openParen | closeParen | comma | dot => true
  | ident _ | number _ | string _ | bool _ | null => false

inductive Spells : Token → List Char → Prop
  | word {name : String} (word : IsWord name) : Spells (ofWord name) name.toList
  | number {value : Decimal.Binary64} {digits : List Char} (means : numeral? digits = some value) :
      Spells (number value) digits
  | string {text : String} {quote : Char} (quotes : quote = '\'' ∨ quote = '"')
      (closed : quote ∉ text.toList) : Spells (string text) (quote :: (text.toList ++ [quote]))
  | mark (token : Token) (mark : token.isMark = true) : Spells token token.text.toList

/-- The character, right after the token, would be read as a part of it. -/
def goesOn : Token → Char → Bool
  | ident _, c | bool _, c | null, c => isWordChar c
  | number _, c => isNumberChar c
  | op .lt, c | op .gt, c | not, c => c = '='
  | _, _ => false

theorem goesOn_ofWord (name : String) (c : Char) : (ofWord name).goesOn c = isWordChar c := by
  rw [ofWord]
  split_ifs <;> rfl

theorem goesOn_eq_false_of_isBlank {c : Char} (blank : isBlank c = true) (token : Token) :
    token.goesOn c = false := by
  have word : isWordChar c = false := by
    by_contra char
    rw [(isPlain_of_isWordChar (.inl (by simpa using char))).1] at blank
    cases blank
  have digit : isNumberChar c = false := by
    by_contra char
    rw [isNumberChar, Bool.not_eq_false, Bool.or_eq_true, decide_eq_true_eq] at char
    have plain := isPlain_of_isWordChar (char.imp_left fun digit => by
      simp [isWordChar, Char.isAlphanum, digit])
    rw [plain.1] at blank
    cases blank
  have equals : (decide (c = '=')) = false := by
    rw [decide_eq_false_iff_not]
    rintro rfl
    cases blank
  cases token with
  | op op => cases op <;> first | exact equals | rfl
  | _ => first | exact word | exact digit | exact equals | rfl

end Token

/-! ## Reading a spelling -/

variable {token : Token} {rest : List Char}

theorem takeWhile_append_of_stops {p : Char → Bool} {cs : List Char} (inside : ∀ c ∈ cs, p c = true)
    (stops : ∀ c ∈ rest.head?, p c = false) :
    (cs ++ rest).takeWhile p = cs ∧ (cs ++ rest).dropWhile p = rest := by
  rw [List.takeWhile_append_of_pos inside, List.dropWhile_append_of_pos inside]
  cases rest with
  | nil => simp
  | cons c rest =>
      have stop : p c = false := stops c rfl
      simp [stop]

def ReadAs (word rest : List Char) (token : Token) : Prop :=
  ∃ c cs, word = c :: cs ∧ isBlank c = false ∧ ∃ lexeme : Lexeme (c :: (cs ++ rest)),
    Lexeme.read c (cs ++ rest) = .ok lexeme ∧ lexeme.token = token ∧ lexeme.text = word ∧
      lexeme.rest = rest

theorem readAs_word {name : String} (word : IsWord name)
    (stops : ∀ c ∈ rest.head?, isWordChar c = false) :
    ReadAs name.toList rest (.ofWord name) := by
  have letter := word.isWordChar
  obtain ⟨c, cs, letters, start, -⟩ := word
  rw [letters, List.forall_mem_cons] at letter
  obtain ⟨front, after⟩ := takeWhile_append_of_stops letter.2 stops
  refine ⟨c, cs, letters, (isPlain_of_isWordChar (.inl letter.1)).1, .word c (cs ++ rest), ?_, ?_,
    ?_, after⟩
  · rw [Lexeme.read, if_pos start]
  · simp only [Lexeme.word, Lexeme.run, front, ← letters, String.ofList_toList]
  · simp only [Lexeme.word, Lexeme.run, front, letters]

theorem exists_cons_of_numeral? {digits : List Char} {value : Decimal.Binary64}
    (means : numeral? digits = some value) :
    ∃ c cs, digits = c :: cs ∧ c.isDigit = true ∧ ∀ d ∈ cs, isNumberChar d = true := by
  have number {d : Char} (digit : d.isDigit = true) : isNumberChar d = true := by
    simp [isNumberChar, digit]
  have whole : ∀ d ∈ digits.takeWhile Char.isDigit, d.isDigit = true := fun d inside =>
    List.all_eq_true.mp List.all_takeWhile d inside
  have each : ∀ d ∈ digits, isNumberChar d = true := by
    rw [← List.takeWhile_append_dropWhile (p := Char.isDigit) (l := digits), List.forall_mem_append]
    refine ⟨fun d inside => number (whole d inside), ?_⟩
    rw [numeral?] at means
    split_ifs at means
    split at means
    · rename_i after
      rw [after]
      nofun
    · rename_i fraction after
      rw [after, List.forall_mem_cons]
      split_ifs at means with fractional
      exact ⟨rfl, fun d inside => number (List.all_eq_true.mp fractional d inside)⟩
    · cases means
  cases digits with
  | nil => cases means
  | cons c cs =>
      refine ⟨c, cs, rfl, ?_, fun d inside => each d (.tail c inside)⟩
      by_contra digit
      simp [numeral?, digit] at means

theorem readAs_number {digits : List Char} {value : Decimal.Binary64}
    (means : numeral? digits = some value) (stops : ∀ c ∈ rest.head?, isNumberChar c = false) :
    ReadAs digits rest (.number value) := by
  obtain ⟨c, cs, rfl, digit, inside⟩ := exists_cons_of_numeral? means
  obtain ⟨front, after⟩ := takeWhile_append_of_stops inside stops
  have letter : isWordStart c = false := by
    have range : 48 ≤ c.toNat ∧ c.toNat ≤ 57 :=
      ((Bool.and_eq_true ..).mp digit).imp of_decide_eq_true of_decide_eq_true
    rw [Bool.eq_false_iff]
    intro start
    rcases (Bool.or_eq_true ..).mp start with letter | underscore
    · rcases (Bool.or_eq_true ..).mp letter with upper | lower
      · have bounds : 65 ≤ c.toNat ∧ c.toNat ≤ 90 := of_decide_eq_true upper
        omega
      · have bounds : 97 ≤ c.toNat ∧ c.toNat ≤ 122 :=
          ((Bool.and_eq_true ..).mp lower).imp of_decide_eq_true of_decide_eq_true
        omega
    · rw [of_decide_eq_true underscore] at range
      exact absurd range (by decide)
  refine ⟨c, cs, rfl, (isPlain_of_isWordChar (.inl ?_)).1, .run (.number value) isNumberChar c _,
    ?_, rfl, ?_, after⟩
  · simp [isWordChar, Char.isAlphanum, digit]
  · rw [Lexeme.read, letter, if_neg Bool.false_ne_true, if_pos digit]
    simp only [Lexeme.number, front, means]
  · simp only [Lexeme.run, front]

theorem readAs_string {text : String} {quote : Char} (quotes : quote = '\'' ∨ quote = '"')
    (closed : quote ∉ text.toList) :
    ReadAs (quote :: (text.toList ++ [quote])) rest (.string text) := by
  have inside : ∀ c ∈ text.toList, (c != quote) = true := by
    intro c member
    rw [bne_iff_ne]
    rintro rfl
    exact closed member
  have stops : ∀ c ∈ (quote :: rest).head?, (c != quote) = false := by simp
  obtain ⟨front, after⟩ := takeWhile_append_of_stops inside stops
  have read : ∃ lexeme : Lexeme (quote :: (text.toList ++ quote :: rest)),
      Lexeme.quoted quote (text.toList ++ quote :: rest) = .ok lexeme ∧
        lexeme.token = .string text ∧ lexeme.text = quote :: (text.toList ++ [quote]) ∧
        lexeme.rest = rest := by
    rw [Lexeme.quoted]
    split
    · rename_i none
      rw [after] at none
      cases none
    · rename_i close rest' found
      rw [after] at found
      cases found
      refine ⟨_, rfl, ?_, ?_, rfl⟩
      · simp only [front, String.ofList_toList]
      · simp only [front]
  have plain : isBlank quote = false ∧ isWordStart quote = false ∧ quote.isDigit = false := by
    rcases quotes with rfl | rfl <;> exact ⟨rfl, rfl, rfl⟩
  refine ⟨quote, text.toList ++ [quote], rfl, plain.1, ?_⟩
  rw [List.append_assoc, List.singleton_append, Lexeme.read, plain.2.1, plain.2.2,
    if_neg Bool.false_ne_true, if_neg Bool.false_ne_true, if_pos quotes]
  exact read

theorem Lexeme.read_of_stops (stops : ∀ c ∈ rest.head?, c ≠ '=') :
    read '<' rest = .ok (one (.op .lt) '<' rest) ∧ read '>' rest = .ok (one (.op .gt) '>' rest) ∧
      read '!' rest = .ok (one .not '!' rest) := by
  cases rest with
  | nil => exact ⟨rfl, rfl, rfl⟩
  | cons c rest =>
      have other : c ≠ '=' := stops c rfl
      change mark _ _ = _ ∧ mark _ _ = _ ∧ mark _ _ = _
      simp [mark, other]

theorem readAs_mark (mark : token.isMark = true)
    (stops : ∀ c ∈ rest.head?, token.goesOn c = false) : ReadAs token.text.toList rest token := by
  have apart (same : ∀ c, token.goesOn c = decide (c = '=')) : ∀ c ∈ rest.head?, c ≠ '=' :=
    fun c first => of_decide_eq_false ((same c).symm.trans (stops c first))
  cases token with
  | op op =>
      cases op with
      | or | and | eq | ne | le | ge => exact ⟨_, [_], rfl, rfl, .two _ _ _ _, rfl, rfl, rfl, rfl⟩
      | lt =>
          have read := (Lexeme.read_of_stops (apart fun _ => rfl)).1
          exact ⟨'<', [], rfl, rfl, .one _ _ _, read, rfl, rfl, rfl⟩
      | gt =>
          have read := (Lexeme.read_of_stops (apart fun _ => rfl)).2.1
          exact ⟨'>', [], rfl, rfl, .one _ _ _, read, rfl, rfl, rfl⟩
      | add | sub | mul | div | mod => exact ⟨_, [], rfl, rfl, .one _ _ _, rfl, rfl, rfl, rfl⟩
  | not =>
      have read := (Lexeme.read_of_stops (apart fun _ => rfl)).2.2
      exact ⟨'!', [], rfl, rfl, .one _ _ _, read, rfl, rfl, rfl⟩
  | openParen | closeParen | comma | dot => exact ⟨_, [], rfl, rfl, .one _ _ _, rfl, rfl, rfl, rfl⟩
  | _ => cases mark

theorem Token.Spells.readAs {word : List Char} (spells : token.Spells word)
    (stops : ∀ c ∈ rest.head?, token.goesOn c = false) : ReadAs word rest token := by
  cases spells with
  | word word => exact readAs_word word fun c first => by rw [← goesOn_ofWord]; exact stops c first
  | number means => exact readAs_number means stops
  | string quotes closed => exact readAs_string quotes closed
  | mark _ mark => exact readAs_mark mark stops

theorem Token.Spells.exists_cons {word : List Char} (spells : token.Spells word) :
    ∃ c cs, word = c :: cs := by
  have ends : ∀ c ∈ ([] : List Char).head?, token.goesOn c = false := nofun
  obtain ⟨c, cs, written, -⟩ := spells.readAs ends
  exact ⟨c, cs, written⟩

/-! ## Reading a text -/

def Token.Adjoins (token next : Token) : Prop :=
  ∀ c cs, next.Spells (c :: cs) → token.goesOn c = false

/-- The characters are the tokens, one after the other, with blanks around them or none. -/
inductive Writes : List Token → List Char → Prop
  | blanks {cs : List Char} (blank : ∀ c ∈ cs, isBlank c = true) : Writes [] cs
  | token {token : Token} {tokens : List Token} {blanks word rest : List Char}
      (blank : ∀ c ∈ blanks, isBlank c = true) (spells : token.Spells word)
      (others : Writes tokens rest) : Writes (token :: tokens) (blanks ++ (word ++ rest))

theorem Writes.cons {tokens : List Token} {word : List Char} (others : Writes tokens rest)
    (spells : token.Spells word) : Writes (token :: tokens) (word ++ rest) :=
  .token (List.forall_mem_nil _) spells others

theorem Writes.blank {tokens : List Token} {blanks cs : List Char} (writes : Writes tokens cs)
    (blank : ∀ c ∈ blanks, isBlank c = true) : Writes tokens (blanks ++ cs) := by
  cases writes with
  | blanks blank' => exact .blanks (List.forall_mem_append.mpr ⟨blank, blank'⟩)
  | token blank' spells others =>
      rw [← List.append_assoc]
      exact .token (List.forall_mem_append.mpr ⟨blank, blank'⟩) spells others

theorem Writes.stops {tokens : List Token} {cs : List Char} (writes : Writes tokens cs)
    (adjoins : ∀ next ∈ tokens.head?, token.Adjoins next) :
    ∀ c ∈ cs.head?, token.goesOn c = false := by
  have before (blanks rest : List Char) (blank : ∀ c ∈ blanks, isBlank c = true)
      (stops : ∀ c ∈ rest.head?, token.goesOn c = false) :
      ∀ c ∈ (blanks ++ rest).head?, token.goesOn c = false := by
    cases blanks with
    | nil => exact stops
    | cons b blanks =>
        rintro c ⟨⟩
        exact Token.goesOn_eq_false_of_isBlank (blank b List.mem_cons_self) token
  cases writes with
  | blanks blank => simpa using before cs [] blank nofun
  | @token next _ blanks word rest blank spells others =>
      refine before blanks (word ++ rest) blank ?_
      obtain ⟨c, cs, rfl⟩ := spells.exists_cons
      rintro _ ⟨⟩
      exact adjoins next rfl c cs spells

theorem scan_append_of_blank {blanks : List Char} (blank : ∀ c ∈ blanks, isBlank c = true)
    (column : Nat) : scan column (blanks ++ rest) = scan (column + blanks.length) rest := by
  induction blanks generalizing column with
  | nil => rfl
  | cons b blanks ih =>
      rw [List.forall_mem_cons] at blank
      rw [List.cons_append, scan_blank blank.1, ih blank.2, List.length_cons, Nat.add_assoc,
        Nat.add_comm 1]

theorem Writes.exists_scan {tokens : List Token} {cs : List Char} (writes : Writes tokens cs)
    (chain : tokens.IsChain Token.Adjoins) (column : Nat) :
    ∃ ts, scan column cs = .ok ts ∧ ts.map Placed.token = tokens := by
  induction writes generalizing column with
  | blanks blank => exact ⟨[], scan_blanks (List.all_eq_true.mpr blank), rfl⟩
  | @token token tokens blanks word rest blank spells others ih =>
      rw [List.isChain_cons] at chain
      obtain ⟨c, cs, rfl, filled, lexeme, read, isToken, text, after⟩ :=
        spells.readAs (others.stops chain.1)
      obtain ⟨ts, split, same⟩ := ih chain.2 (column + blanks.length + lexeme.text.length)
      refine ⟨⟨token, column + blanks.length⟩ :: ts, ?_, by rw [List.map_cons, same]⟩
      rw [scan_append_of_blank blank]
      exact scan_cons_ok filled read isToken rfl after split

theorem exists_writes {tokens : List Token}
    (spelled : ∀ token ∈ tokens, ∃ word, token.Spells word) : ∃ cs, Writes tokens cs := by
  induction tokens with
  | nil => exact ⟨[], .blanks nofun⟩
  | cons token tokens ih =>
      rw [List.forall_mem_cons] at spelled
      obtain ⟨⟨word, spells⟩, others⟩ := spelled
      obtain ⟨cs, writes⟩ := ih others
      exact ⟨word ++ cs, writes.cons spells⟩

end RuleLint.Rule
