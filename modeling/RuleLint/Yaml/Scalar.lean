import RuleLint.Text.Basic
import RuleLint.Yaml.Cursor

namespace RuleLint.Yaml

structure Scalar where
  text : String
  isPlain : Bool
deriving DecidableEq, Repr, Inhabited

def Scalar.empty : Scalar := ⟨"", true⟩

def foldGap (gap : List Char) : List Char :=
  match gap.filter isBreak with
  | [] => gap
  | ['\n'] => [' ']
  | '\n' :: breaks => breaks
  | breaks => breaks

def isFlowIndicator (c : Char) : Bool := c ∈ [',', '[', ']', '{', '}']

/-- The rest of a word. A colon ends it where the word would end after it, and in flow collections
their indicators end it. There a colon before an indicator is refused. -/
def plainWord (inFlow : Bool) : List Char → Option (List Char)
  | [] => some []
  | c :: rest =>
    if isGap c || (c = ':' && endsWord rest) || (inFlow && isFlowIndicator c) then some []
    else if inFlow && c = ':' && rest.head?.any (fun d => isFlowIndicator d || d = '?') then none
    else (plainWord inFlow rest).map (c :: ·)

/-- Whether a gap holds a tab that stands for indentation: before column `indent` of a line that
begins in the gap. The column is that of the first character if its line began in the gap. -/
def tabIndents (indent : Nat) : Option Nat → List Char → Bool
  | _, [] => false
  | column, c :: rest =>
    if isBreak c then tabIndents indent (some 0) rest
    else (c = '\t' && column.any (· < indent)) || tabIndents indent (column.map (· + 1)) rest

structure PlainText where
  text : List Char
  brokeLine : Bool
  next : Cursor

/-- What follows a word of a plain scalar: gaps and words as long as lines are indented by
`indent`. A comment ends the scalar, and so does the beginning or end of a document. -/
def plainTail (inFlow : Bool) (indent : Nat) (c : Cursor) : Option PlainText :=
  let gap := c.run isGap
  let next := c.advance gap.length
  if _empty : gap = [] then some ⟨[], false, c⟩
  else if tabIndents indent none gap then none
  else if (!inFlow && next.column < indent) || next.atDocumentMarker ||
      next.rest.head? = some '#' then
    some ⟨[], gap.any isBreak, next⟩
  else
    match plainWord inFlow next.rest with
    | none => none
    | some [] => some ⟨[], gap.any isBreak, next⟩
    | some word =>
      (plainTail inFlow indent (next.advance word.length)).map fun tail =>
        { tail with text := foldGap gap ++ word ++ tail.text }
termination_by c.rest.length
decreasing_by
  have nonempty : 0 < (c.run isGap).length := List.length_pos_iff.mpr _empty
  have : (c.run isGap).length ≤ c.rest.length := (List.takeWhile_sublist isGap).length_le
  simp only [Cursor.rest_advance, List.length_drop]
  omega

def plainScalar (inFlow : Bool) (indent : Nat) (c : Cursor) : Option PlainText := do
  let word ← plainWord inFlow c.rest
  let tail ← plainTail inFlow indent (c.advance word.length)
  return { tail with text := word ++ tail.text }

inductive Quote
  | single
  | double
deriving DecidableEq, Repr

def escapedChar? : Char → Option Char
  | '0' => some '\x00'
  | 'a' => some '\x07'
  | 'b' => some '\x08'
  | 't' | '\t' => some '\t'
  | 'n' => some '\n'
  | 'v' => some '\x0b'
  | 'f' => some '\x0c'
  | 'r' => some '\r'
  | 'e' => some '\x1b'
  | ' ' => some ' '
  | '"' => some '"'
  | '/' => some '/'
  | '\\' => some '\\'
  | 'N' => some '\x85'
  | '_' => some '\u00a0'
  | 'L' => some '\u2028'
  | 'P' => some '\u2029'
  | _ => none

def digitCount? : Char → Option Nat
  | 'x' => some 2
  | 'u' => some 4
  | 'U' => some 8
  | _ => none

def escape? : List Char → Option (Char × Nat)
  | [] => none
  | c :: rest =>
    match escapedChar? c, digitCount? c with
    | some value, _ => some (value, 1)
    | none, some count => do
      let digits ← (rest.take count).mapM Text.hexValue?
      let value := digits.foldl (fun n d => 16 * n + d) 0
      if digits.length = count ∧ value.isValidChar then some (Char.ofNat value, 1 + count)
      else none
    | none, none => none

/-- A part of a scalar in quotes, with the cursor after the closing quote. Inside, a single quote
is written twice or a backslash begins an escape, depending on the quotes. A line break after a
backslash is dropped with the blanks after it. -/
def quotedText (quote : Quote) (c : Cursor) : Option (List Char × Cursor) :=
  let gap := c.run isGap
  let go (count : Nat) (text : List Char) (_ : 0 < count ∧ 0 < c.rest.length) :
      Option (List Char × Cursor) :=
    (quotedText quote (c.advance count)).map fun (tail, next) => (text ++ tail, next)
  if c.atDocumentMarker then none
  else if hg : 0 < gap.length then
    go gap.length (foldGap gap)
      ⟨hg, Nat.lt_of_lt_of_le hg (List.takeWhile_sublist isGap).length_le⟩
  else if left : 0 < c.rest.length then
    let rest := c.rest.tail
    match quote, c.rest[0] with
    | .single, '\'' =>
      if rest.head? = some '\'' then go 2 ['\''] ⟨Nat.two_pos, left⟩ else some ([], c.advance 1)
    | .double, '"' => some ([], c.advance 1)
    | .double, '\\' =>
      if rest.head?.any isBreak then
        let blanks := rest.tail.takeWhile isGap
        go (2 + blanks.length) (blanks.filter isBreak) ⟨Nat.add_pos_left Nat.two_pos _, left⟩
      else
        match escape? rest with
        | some (value, count) => go (1 + count) [value] ⟨Nat.add_pos_left Nat.one_pos _, left⟩
        | none => none
    | _, ch => go 1 [ch] ⟨Nat.one_pos, left⟩
  else none
termination_by c.rest.length
decreasing_by
  rename_i positive
  simp only [Cursor.rest_advance, List.length_drop]
  omega

def quotedScalar (quote : Quote) (c : Cursor) : Option (List Char × Cursor) :=
  quotedText quote (c.advance 1)

end RuleLint.Yaml
