import RuleLint.Rule.Fault
import RuleLint.Text.Basic

namespace RuleLint.Rule

open Decimal (Binary64)
open Text (isBlank)

def isWordStart (c : Char) : Bool := c.isAlpha || c = '_'

def isWordChar (c : Char) : Bool := c.isAlphanum || c = '_'

def isNumberChar (c : Char) : Bool := c.isDigit || c = '.'

/-- The number a numeral stands for. A numeral has digits before its point and may have none
after it. -/
def numeral? (text : List Char) : Option Binary64 :=
  let whole := text.takeWhile Char.isDigit
  if whole = [] then none
  else
    match text.dropWhile Char.isDigit with
    | [] => some (.ofDigits whole [])
    | '.' :: fraction => if fraction.all Char.isDigit then some (.ofDigits whole fraction) else none
    | _ => none

structure Lexeme (input : List Char) where
  token : Token
  text : List Char
  rest : List Char
  append_rest : text ++ rest = input
  text_ne_nil : text ≠ []

namespace Lexeme

theorem length_rest_lt {input : List Char} (l : Lexeme input) : l.rest.length < input.length := by
  have whole := congrArg List.length l.append_rest
  have positive := List.length_pos_iff.mpr l.text_ne_nil
  simp only [List.length_append] at whole
  omega

def one (token : Token) (c : Char) (rest : List Char) : Lexeme (c :: rest) :=
  ⟨token, [c], rest, rfl, nofun⟩

def two (token : Token) (c d : Char) (rest : List Char) : Lexeme (c :: d :: rest) :=
  ⟨token, [c, d], rest, rfl, nofun⟩

def run (token : Token) (p : Char → Bool) (c : Char) (cs : List Char) : Lexeme (c :: cs) :=
  ⟨token, c :: cs.takeWhile p, cs.dropWhile p, by simp [List.takeWhile_append_dropWhile], nofun⟩

def word (c : Char) (cs : List Char) : Lexeme (c :: cs) :=
  run (.ofWord (String.ofList (c :: cs.takeWhile isWordChar))) isWordChar c cs

def number (c : Char) (cs : List Char) : Except Fault (Lexeme (c :: cs)) :=
  let text := c :: cs.takeWhile isNumberChar
  match numeral? text with
  | some value => .ok (run (.number value) isNumberChar c cs)
  | none => .error (.invalidNumber (String.ofList text))

/-- The string that starts with the quote `q`. It ends at the next `q`, and nothing is escaped. -/
def quoted (q : Char) (cs : List Char) : Except Fault (Lexeme (q :: cs)) :=
  let body := cs.takeWhile (· != q)
  match h : cs.dropWhile (· != q) with
  | [] => .error .unterminatedString
  | close :: rest =>
    .ok ⟨.string (String.ofList body), q :: (body ++ [close]), rest, by
      have whole := List.takeWhile_append_dropWhile (p := (· != q)) (l := cs)
      rw [h] at whole
      simpa [body] using whole, nofun⟩

def mark (c : Char) (cs : List Char) : Except Fault (Lexeme (c :: cs)) :=
  match c, cs with
  | '&', '&' :: rest => .ok (two (.op .and) '&' '&' rest)
  | '|', '|' :: rest => .ok (two (.op .or) '|' '|' rest)
  | '=', '=' :: rest => .ok (two (.op .eq) '=' '=' rest)
  | '!', '=' :: rest => .ok (two (.op .ne) '!' '=' rest)
  | '<', '=' :: rest => .ok (two (.op .le) '<' '=' rest)
  | '>', '=' :: rest => .ok (two (.op .ge) '>' '=' rest)
  | '!', rest => .ok (one .not '!' rest)
  | '<', rest => .ok (one (.op .lt) '<' rest)
  | '>', rest => .ok (one (.op .gt) '>' rest)
  | '+', rest => .ok (one (.op .add) '+' rest)
  | '-', rest => .ok (one (.op .sub) '-' rest)
  | '*', rest => .ok (one (.op .mul) '*' rest)
  | '/', rest => .ok (one (.op .div) '/' rest)
  | '%', rest => .ok (one (.op .mod) '%' rest)
  | '(', rest => .ok (one .openParen '(' rest)
  | ')', rest => .ok (one .closeParen ')' rest)
  | ',', rest => .ok (one .comma ',' rest)
  | '.', rest => .ok (one .dot '.' rest)
  | '=', _ => .error (.halfOperator '=')
  | '&', _ => .error (.halfOperator '&')
  | '|', _ => .error (.halfOperator '|')
  | c, _ => .error (.strayCharacter c)

def read (c : Char) (cs : List Char) : Except Fault (Lexeme (c :: cs)) :=
  if isWordStart c then .ok (word c cs)
  else if c.isDigit then number c cs
  else if c = '\'' ∨ c = '"' then quoted c cs
  else mark c cs

end Lexeme

def scan (column : Nat) (input : List Char) : Except Diagnostic (List Placed) :=
  match input with
  | [] => .ok []
  | c :: cs =>
    if isBlank c then scan (column + 1) cs
    else
      match Lexeme.read c cs with
      | .error fault => .error ⟨fault, column⟩
      | .ok lexeme => do
        let tokens ← scan (column + lexeme.text.length) lexeme.rest
        return ⟨lexeme.token, column⟩ :: tokens
termination_by input.length
decreasing_by
  · simp
  · exact lexeme.length_rest_lt

structure Lexed where
  tokens : List Placed
  stop : Nat
deriving DecidableEq, Repr

def tokenize (input : String) : Except Diagnostic Lexed := do
  return ⟨← scan 1 input.toList, input.length + 1⟩

end RuleLint.Rule
