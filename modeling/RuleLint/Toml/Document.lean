import RuleLint.Toml.Quoted
import RuleLint.Toml.Table

namespace RuleLint.Toml

abbrev Reading (cs : List Char) (α : Type) : Type :=
  { read : α × List Char // read.2.length < cs.length }

abbrev Reader (α : Type) : Type := (cs : List Char) → Option (Reading cs α)

/-! ## Between words -/

theorem dropBlanks_length_le (cs : List Char) : (cs.dropWhile isBlank).length ≤ cs.length :=
  (List.dropWhile_sublist isBlank).length_le

theorem length_lt_of_dropBlanks {cs rest : List Char} {c : Char}
    (h : cs.dropWhile isBlank = c :: rest) : rest.length < cs.length := by
  have := dropBlanks_length_le cs
  rw [h, List.length_cons] at this
  omega

def skipFiller (inComment : Bool) : List Char → List Char
  | [] => []
  | '\n' :: rest => skipFiller false rest
  | '\r' :: '\n' :: rest => skipFiller false rest
  | c :: rest =>
    if inComment then if isTextChar c then skipFiller true rest else c :: rest
    else if isBlank c then skipFiller false rest
    else if c = '#' then skipFiller true rest
    else c :: rest

theorem skipFiller_length_le (inComment : Bool) (cs : List Char) :
    (skipFiller inComment cs).length ≤ cs.length := by
  fun_induction skipFiller inComment cs <;> simp only [List.length_cons, List.length_nil] at * <;>
    omega

theorem length_lt_of_skipFiller {inComment : Bool} {cs rest : List Char} {c : Char}
    (h : skipFiller inComment cs = c :: rest) : rest.length < cs.length := by
  have := skipFiller_length_le inComment cs
  rw [h, List.length_cons] at this
  omega

def endsLine (cs : List Char) : Bool :=
  match cs.dropWhile isBlank with
  | [] => true
  | c :: rest => c = '#' || breakLength (c :: rest) ≠ 0

/-! ## Keys -/

def isKeyChar (c : Char) : Bool := c.isAlphanum || c = '_' || c = '-'

def key? (cs : List Char) : Option (List Char × List Char) :=
  match cs.takeWhile isKeyChar with
  | [] => lineString? cs
  | name => some (name, cs.dropWhile isKeyChar)

theorem key?_length_lt {cs name after : List Char} (h : key? cs = some (name, after)) :
    after.length < cs.length := by
  unfold key? at h
  split at h
  · exact lineString?_length_lt h
  · rename_i nonempty
    cases h
    have parts := congrArg List.length (List.takeWhile_append_dropWhile (p := isKeyChar) (l := cs))
    have := List.length_pos_iff.mpr nonempty
    simp only [List.length_append] at parts
    omega

def keys? (cs : List Char) : Option (Reading cs (List String)) :=
  match _key : key? (cs.dropWhile isBlank) with
  | none => none
  | some (key, rest) =>
    have key_lt : rest.length < cs.length :=
      Nat.lt_of_lt_of_le (key?_length_lt _key) (dropBlanks_length_le cs)
    match _point : rest.dropWhile isBlank with
    | '.' :: rest' => do
      have shorter := Nat.lt_trans (length_lt_of_dropBlanks _point) key_lt
      let ⟨(keys, after), after_lt⟩ ← keys? rest'
      return ⟨(String.ofList key :: keys, after), Nat.lt_trans after_lt shorter⟩
    | after =>
      some ⟨([String.ofList key], after),
        Nat.lt_of_le_of_lt (_point ▸ dropBlanks_length_le rest) key_lt⟩
termination_by cs.length

/-! ## Values -/

def pair? {α : Type} (value : Reader α) (cs : List Char) :
    Option (Reading cs (List String × α)) := do
  let ⟨(keys, rest), keys_lt⟩ ← keys? cs
  match rest, keys_lt with
  | '=' :: rest, keys_lt => do
    let ⟨(value, after), after_lt⟩ ← value (rest.dropWhile isBlank)
    have := dropBlanks_length_le rest
    return ⟨((keys, value), after), by
      simp only [List.length_cons] at keys_lt after_lt ⊢
      omega⟩
  | _, _ => none

def items? {α : Type} (item : Reader α) (cs : List Char) : Option (Reading cs (List α)) :=
  match _start : skipFiller false cs with
  | ']' :: rest => some ⟨([], rest), length_lt_of_skipFiller _start⟩
  | start => do
    let ⟨(first, after), after_lt⟩ ← item start
    have shorter : after.length < cs.length :=
      Nat.lt_of_lt_of_le after_lt (_start ▸ skipFiller_length_le false cs)
    match _comma : skipFiller false after with
    | ']' :: rest =>
      return ⟨([first], rest), Nat.lt_trans (length_lt_of_skipFiller _comma) shorter⟩
    | ',' :: rest => do
      have shorter := Nat.lt_trans (length_lt_of_skipFiller _comma) shorter
      let ⟨(others, last), last_lt⟩ ← items? item rest
      return ⟨(first :: others, last), Nat.lt_trans last_lt shorter⟩
    | _ => none
termination_by cs.length

def entries? (value : Reader Value) (entries : Entries) (cs : List Char) :
    Option (Reading cs Entries) := do
  let ⟨((keys, first), after), after_lt⟩ ← pair? value cs
  let entries ← entries.put? first keys
  match _comma : after.dropWhile isBlank with
  | '\x7d' :: rest =>
    return ⟨(entries, rest), Nat.lt_trans (length_lt_of_dropBlanks _comma) after_lt⟩
  | ',' :: rest => do
    have shorter := Nat.lt_trans (length_lt_of_dropBlanks _comma) after_lt
    let ⟨(entries, last), last_lt⟩ ← entries? value entries rest
    return ⟨(entries, last), Nat.lt_trans last_lt shorter⟩
  | _ => none
termination_by cs.length

def textValue? (cs : List Char) : Option (Reading cs Value) :=
  match _text : string? cs with
  | none => none
  | some (text, rest) => some ⟨(.text (String.ofList text), rest), string?_length_lt _text⟩

def value? : (depth : Nat) → Reader Value
  | 0, cs => textValue? cs
  | depth + 1, cs =>
    match cs with
    | '[' :: rest => do
      let ⟨(items, after), after_lt⟩ ← items? (value? depth) rest
      return ⟨(.array items, after), Nat.lt_succ_of_lt after_lt⟩
    | '\x7b' :: rest =>
      match _empty : rest.dropWhile isBlank with
      | '\x7d' :: after =>
        some ⟨(.table .braces [], after), Nat.lt_succ_of_lt (length_lt_of_dropBlanks _empty)⟩
      | _ => do
        let ⟨(entries, after), after_lt⟩ ← entries? (value? depth) [] rest
        return ⟨(.table .braces entries, after), Nat.lt_succ_of_lt after_lt⟩
    | cs => textValue? cs

def maxNesting : Nat := 80

/-! ## Lines -/

inductive Line
  | header (keys : List String)
  | entry (keys : List String) (value : Value)
deriving Repr

def line? (cs : List Char) : Option (Reading cs Line) :=
  match cs with
  | '[' :: rest => do
    let ⟨(keys, after), after_lt⟩ ← keys? rest
    match after, after_lt with
    | ']' :: after, after_lt =>
      if endsLine after then
        return ⟨(.header keys, after), by
          simp only [List.length_cons] at after_lt ⊢
          omega⟩
      else none
    | _, _ => none
  | cs => do
    let ⟨((keys, value), after), after_lt⟩ ← pair? (value? maxNesting) cs
    if endsLine after then return ⟨(.entry keys value, after), after_lt⟩ else none

def lines? (cs : List Char) : Option (List Line) :=
  match _start : skipFiller false cs with
  | [] => some []
  | start => do
    let ⟨(line, rest), rest_lt⟩ ← line? start
    have : rest.length < cs.length :=
      Nat.lt_of_lt_of_le rest_lt (_start ▸ skipFiller_length_le false cs)
    return line :: (← lines? rest)
termination_by cs.length

/-! ## Documents -/

/-- The entries of the table around all others after the lines, of which the first belong to the
table that the keys of `header` lead to. -/
def Entries.addLines? (header : List String) (entries : Entries) : List Line → Option Entries
  | [] => some entries
  | .header keys :: lines => do
    let entries ← entries.within? (begin? (keys.getLast?.getD "")) keys.dropLast
    entries.addLines? keys lines
  | .entry keys value :: lines => do
    let entries ← entries.within? (put? value keys) header
    entries.addLines? header lines

def parse (text : String) : Option Entries := do
  let cs :=
    match text.toList with
    | '\ufeff' :: cs => cs
    | cs => cs
  Entries.addLines? [] [] (← lines? cs)

end RuleLint.Toml
