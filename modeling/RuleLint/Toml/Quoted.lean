import RuleLint.Text.Basic

namespace RuleLint.Toml

def isTextChar (c : Char) : Bool := c = '\t' || (' ' ≤ c && c ≠ '\x7f')

def isBlank (c : Char) : Bool := c = ' ' || c = '\t'

def breakLength : List Char → Nat
  | '\n' :: _ => 1
  | '\r' :: '\n' :: _ => 2
  | _ => 0

def gapLength : List Char → Nat
  | '\n' :: rest => gapLength rest + 1
  | '\r' :: '\n' :: rest => gapLength rest + 2
  | c :: rest => if isBlank c then gapLength rest + 1 else 0
  | [] => 0

structure Quotes where
  quote : Char
  triple : Bool
deriving DecidableEq, Repr

def Quotes.hasEscapes (q : Quotes) : Bool := q.quote = '"'

def escapedChar? : Char → Option Char
  | 'b' => some '\x08'
  | 't' => some '\t'
  | 'n' => some '\n'
  | 'f' => some '\x0c'
  | 'r' => some '\r'
  | '"' => some '"'
  | '\\' => some '\\'
  | _ => none

def charOfDigits? (count : Nat) (cs : List Char) : Option Char := do
  let digits ← (cs.take count).mapM Text.hexValue?
  let value := digits.foldl (fun n d => 16 * n + d) 0
  if digits.length = count ∧ value.isValidChar then some (Char.ofNat value) else none

def escape? : List Char → Option (Char × Nat)
  | 'u' :: rest => (charOfDigits? 4 rest).map (·, 5)
  | 'U' :: rest => (charOfDigits? 8 rest).map (·, 9)
  | c :: _ => (escapedChar? c).map (·, 1)
  | [] => none

/-- What the character `c` in a string stands for with the characters of `rest` that belong to it,
and how many these are. Between three double quotes a backslash at the end of a line takes away
the gap after it. -/
def piece? (q : Quotes) (c : Char) (rest : List Char) : Option (List Char × Nat) :=
  if q.hasEscapes && c = '\\' then
    if q.triple && breakLength (rest.dropWhile isBlank) ≠ 0 then some ([], gapLength rest)
    else (escape? rest).map fun (value, length) => ([value], length)
  else if isTextChar c then some ([c], 0)
  else if q.triple && breakLength (c :: rest) ≠ 0 then some (['\n'], breakLength (c :: rest) - 1)
  else none

/-- The rest of a string, and what follows its closing quotes. Up to two quotes may stand directly
before three closing ones. -/
def textBody (q : Quotes) : List Char → Option (List Char × List Char)
  | [] => none
  | c :: rest =>
    let isClosing := c = q.quote && (!q.triple || rest.take 2 = [c, c])
    if isClosing then
      if q.triple then
        let more := min 2 ((rest.drop 2).takeWhile (· = c)).length
        some (List.replicate more c, rest.drop (2 + more))
      else some ([], rest)
    else do
      let (text, length) ← piece? q c rest
      let (tail, after) ← textBody q (rest.drop length)
      return (text ++ tail, after)
termination_by cs => cs.length
decreasing_by
  simp only [List.length_drop, List.length_cons]
  omega

theorem textBody_length_lt {q : Quotes} {cs text after : List Char}
    (h : textBody q cs = some (text, after)) : after.length < cs.length := by
  fun_induction textBody q cs generalizing text with
  | case1 => cases h
  | case2 c rest _ more =>
    cases h
    simp only [List.length_drop, List.length_cons]
    omega
  | case3 c rest =>
    cases h
    simp
  | case4 c rest =>
    rename_i ih
    obtain ⟨⟨front, length⟩, _, h⟩ := Option.bind_eq_some_iff.mp h
    obtain ⟨⟨tail, left⟩, found, h⟩ := Option.bind_eq_some_iff.mp h
    cases h
    have := ih length found
    simp only [List.length_drop, List.length_cons] at this ⊢
    omega

def lineString? : List Char → Option (List Char × List Char)
  | c :: rest => if c = '"' || c = '\'' then textBody ⟨c, false⟩ rest else none
  | [] => none

theorem lineString?_length_lt {cs text after : List Char}
    (h : lineString? cs = some (text, after)) : after.length < cs.length := by
  unfold lineString? at h
  split at h
  · split at h
    · have := textBody_length_lt h
      simp only [List.length_cons]
      omega
    · cases h
  · cases h

def string? (cs : List Char) : Option (List Char × List Char) :=
  match cs with
  | c :: d :: e :: rest =>
    if (c = '"' || c = '\'') && d = c && e = c then
      textBody ⟨c, true⟩ (rest.drop (breakLength rest))
    else lineString? cs
  | _ => lineString? cs

theorem string?_length_lt {cs text after : List Char} (h : string? cs = some (text, after)) :
    after.length < cs.length := by
  unfold string? at h
  split at h
  · split at h
    · have := textBody_length_lt h
      simp only [List.length_drop, List.length_cons] at this ⊢
      omega
    · exact lineString?_length_lt h
  · exact lineString?_length_lt h

end RuleLint.Toml
