import RuleLint.Proofs.Rule.Relocating

namespace RuleLint.Rule

open Text (isBlank)

/-- The second text holds the lexemes of the first one, in the same order and with any blanks around
them, at least one between two of them. -/
inductive Respaced : List Char → List Char → Prop
  | blanks {gap gap' : List Char} (blank : ∀ c ∈ gap, isBlank c = true)
      (blank' : ∀ c ∈ gap', isBlank c = true) : Respaced gap gap'
  | lexeme {gap gap' cs rest' : List Char} {c : Char} {lexeme : Lexeme (c :: cs)}
      (blank : ∀ c ∈ gap, isBlank c = true) (blank' : ∀ c ∈ gap', isBlank c = true)
      (filled : isBlank c = false) (read : Lexeme.read c cs = .ok lexeme)
      (others : Respaced lexeme.rest rest') (apart : ∀ c ∈ rest'.head?, isBlank c = true) :
      Respaced (gap ++ c :: cs) (gap' ++ (lexeme.text ++ rest'))

def Lexed.columns (lexed : Lexed) : List Nat := lexed.tokens.map Placed.column ++ [lexed.stop]

theorem Respaced.exists_scan {cs cs' : List Char} (respaced : Respaced cs cs') (column' : Nat) :
    ∀ {column : Nat} {ts : List Placed}, scan column cs = .ok ts →
      ∃ ts', scan column' cs' = .ok ts' ∧ ts'.map Placed.token = ts.map Placed.token := by
  induction respaced generalizing column' with
  | blanks blank blank' =>
      intro column ts split
      rw [scan_blanks (List.all_eq_true.mpr blank)] at split
      cases split
      exact ⟨[], scan_blanks (List.all_eq_true.mpr blank'), rfl⟩
  | @lexeme gap gap' cs rest' c lexeme blank blank' filled read others apart ih =>
      intro column ts split
      rw [scan_append_of_blank blank, scan_cons filled read] at split
      cases after : scan (column + gap.length + lexeme.text.length) lexeme.rest with
      | error d =>
          rw [after] at split
          cases split
      | ok ts₁ =>
          rw [after] at split
          cases split
          obtain ⟨ts₁', after', same⟩ := ih (column' + gap'.length + lexeme.text.length) after
          -- A blank goes on with no token, so the lexeme is read whatever followed it before.
          obtain ⟨c', cs', written, filled', lexeme', read', isToken, text, left⟩ :=
            (Lexeme.sound_read read).1.readAs fun d first =>
              Token.goesOn_eq_false_of_isBlank (apart d first) lexeme.token
          refine ⟨⟨lexeme.token, column' + gap'.length⟩ :: ts₁', ?_, ?_⟩
          · rw [scan_append_of_blank blank', written, List.cons_append]
            rw [written] at after' text
            exact scan_cons_ok filled' read' isToken (congrArg List.length text) left after'
          · rw [List.map_cons, List.map_cons, same]

theorem exists_relocate {ts ts' : List Placed} {stop : Nat} (stop' : Nat)
    (distinct : (ts.map Placed.column ++ [stop]).Nodup)
    (same : ts'.map Placed.token = ts.map Placed.token) :
    ∃ f : Nat → Nat, ts' = ts.map (Placed.relocate f) ∧ stop' = f stop := by
  induction ts generalizing ts' with
  | nil =>
      obtain rfl := List.map_eq_nil_iff.mp same
      exact ⟨fun _ => stop', rfl, rfl⟩
  | cons t ts ih =>
      obtain ⟨column, rest, rfl, sameRest⟩ := exists_cons_of_tokens same
      rw [List.map_cons, List.cons_append, List.nodup_cons, List.mem_append,
        List.mem_singleton, not_or] at distinct
      obtain ⟨⟨fresh, early⟩, distinct⟩ := distinct
      obtain ⟨f, rfl, rfl⟩ := ih distinct sameRest
      refine ⟨Function.update f t.column column, ?_, ?_⟩
      · rw [List.map_cons, Placed.relocate, Function.update_self]
        congr 1
        apply List.map_congr_left
        intro t' member
        have other : t'.column ≠ t.column := by
          intro equal
          exact fresh (equal ▸ List.mem_map_of_mem member)
        rw [Placed.relocate, Placed.relocate, Function.update_of_ne other]
      · rw [Function.update_of_ne (Ne.symm early)]

theorem Respaced.exists_tokenize {s s' : String} {lexed : Lexed}
    (respaced : Respaced s.toList s'.toList) (split : tokenize s = .ok lexed) :
    ∃ f, tokenize s' = .ok (lexed.relocate f) := by
  obtain ⟨stops, laid⟩ := tokenize_eq_ok_iff.mp split
  obtain ⟨ts', split', same⟩ := respaced.exists_scan 1 laid.scan
  have increasing := laid.increasing
  rw [Nat.add_comm, String.length_toList, ← stops] at increasing
  obtain ⟨f, rfl, stops'⟩ := exists_relocate (s'.length + 1) (increasing.imp Nat.ne_of_lt) same
  refine ⟨f, tokenize_eq_ok_iff.mpr ⟨stops'.symm, laid_of_scan split'⟩⟩

section

variable {s : String} {lexed : Lexed} {diagnostic : Diagnostic}

end

namespace Roomy

def one : Decimal.Binary64 := .ofDigits ['1'] []

def lexed : Lexed := ⟨[⟨.ident "a", 1⟩, ⟨.op .le, 2⟩, ⟨.number one, 4⟩], 6⟩

def lexed' : Lexed := ⟨[⟨.ident "a", 2⟩, ⟨.op .le, 4⟩, ⟨.number one, 8⟩], 11⟩

def text : String := .ofList ['a', '<', '=', '1', '.']

def text' : String := .ofList [' ', 'a', '\t', '<', '=', ' ', ' ', '1', '.', '\n']

theorem tokenize_text : tokenize text = .ok lexed := by
  have split : scan 1 ['a', '<', '=', '1', '.'] = .ok lexed.tokens := by
    repeat refine scan_cons_ok rfl rfl rfl rfl rfl ?_
    exact scan_nil _
  rw [tokenize, text, String.toList_ofList, split]
  rfl

theorem respaced : Respaced text.toList text'.toList := by
  rw [text, text', String.toList_ofList, String.toList_ofList]
  have last : Respaced [] ['\n'] := .blanks (List.forall_mem_nil _) (List.all_eq_true.mp rfl)
  have number : Respaced ['1', '.'] [' ', ' ', '1', '.', '\n'] :=
    @Respaced.lexeme [] [' ', ' '] ['.'] ['\n'] '1' (.run (.number one) isNumberChar '1' ['.'])
      (List.forall_mem_nil _) (List.all_eq_true.mp rfl) rfl rfl last fun | _, rfl => rfl
  have operator : Respaced ['<', '=', '1', '.'] ['\t', '<', '=', ' ', ' ', '1', '.', '\n'] :=
    @Respaced.lexeme [] ['\t'] ['=', '1', '.'] [' ', ' ', '1', '.', '\n'] '<'
      (.two (.op .le) '<' '=' ['1', '.']) (List.forall_mem_nil _) (List.all_eq_true.mp rfl) rfl rfl number
      fun | _, rfl => rfl
  exact @Respaced.lexeme [] [' '] ['<', '=', '1', '.'] ['\t', '<', '=', ' ', ' ', '1', '.', '\n']
    'a' (.word 'a' ['<', '=', '1', '.']) (List.forall_mem_nil _) (List.all_eq_true.mp rfl) rfl rfl operator
    fun | _, rfl => rfl

end Roomy

namespace Vacant

def text : String := .ofList []

def text' : String := .ofList [' ', ' ']

end Vacant

end RuleLint.Rule
