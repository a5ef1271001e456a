import RuleLint.Yaml.Cursor

namespace RuleLint.Yaml

inductive Chomping
  | strip
  | clip
  | keep
deriving DecidableEq, Repr

/-- What stands after the indicator of a block scalar. The increment says how much deeper than its
surroundings it is indented; without one its first line shows it. -/
structure BlockHeader where
  chomping : Chomping
  increment : Option Nat
deriving DecidableEq, Repr

def chomping? : Char → Option Chomping
  | '-' => some .strip
  | '+' => some .keep
  | _ => none

def increment? : List Char → Option (Option Nat × List Char)
  | c :: rest =>
    if c.isDigit then if c = '0' then none else some (some (c.toNat - '0'.toNat), rest)
    else some (none, c :: rest)
  | [] => some (none, [])

def blockHeader? (cs : List Char) : Option (BlockHeader × List Char) :=
  match cs.head? >>= chomping? with
  | some chomping => do
    let (increment, rest) ← increment? cs.tail
    return (⟨chomping, increment⟩, rest)
  | none => do
    let (increment, rest) ← increment? cs
    match increment, rest.head? >>= chomping? with
    | some _, some chomping => return (⟨chomping, increment⟩, rest.tail)
    | _, _ => return (⟨.clip, increment⟩, rest)

structure BlankLines where
  breaks : List Char
  widest : Nat
  next : Cursor

/-- The lines without words that begin at the cursor, and the indentation of the line after them.
Indentation is made of spaces and goes up to the column `limit`, if there is one. A tab in it is
refused. -/
def blankLines (limit : Option Nat) (c : Cursor) : Option BlankLines :=
  let spaces := (c.run (· = ' ')).length
  let next := c.advance (match limit with | some n => min spaces (n - c.column) | none => spaces)
  match _found : next.rest with
  | [] => some ⟨[], next.column, next⟩
  | ch :: _ =>
    if limit.all (next.column < ·) && ch = '\t' then none
    else if isBreak ch then
      (blankLines limit (next.advance 1)).map fun lines =>
        { lines with breaks := ch :: lines.breaks, widest := max next.column lines.widest }
    else some ⟨[], next.column, next⟩
termination_by c.rest.length
decreasing_by
  have shorter := congrArg List.length _found
  simp only [next, Cursor.rest_advance, List.length_drop, List.length_cons] at shorter ⊢
  omega

theorem blankLines_rest_le {limit : Option Nat} {c : Cursor} {lines : BlankLines}
    (h : blankLines limit c = some lines) : lines.next.rest.length ≤ c.rest.length := by
  fun_induction blankLines limit c generalizing lines with
  | case1 c spaces next =>
    cases h
    simp [next]
  | case2 => cases h
  | case3 =>
    rename_i c spaces next ch tail _ _ _ ih
    obtain ⟨inner, found, rfl⟩ := Option.map_eq_some_iff.mp h
    have := ih found
    simp only [next, Cursor.rest_advance, List.length_drop] at this ⊢
    omega
  | case4 c spaces next =>
    cases h
    simp [next]

structure BlockText where
  text : List Char
  lastBreak : List Char
  breaks : List Char
  next : Cursor

def joinLines (folds : Bool) (lastBreak breaks : List Char) : List Char :=
  if folds && lastBreak = ['\n'] then if breaks = [] then [' '] else breaks
  else lastBreak ++ breaks

/-- The lines from the cursor on that are indented to the column `indent`. Before them stand a line
with its break, which began with a blank or not, and blank lines. -/
def blockLines (literal : Bool) (indent : Nat) (lastBlank : Bool) (lastBreak breaks : List Char)
    (c : Cursor) : Option BlockText :=
  if _inside : c.column = indent ∧ c.rest ≠ [] then
    let blank := c.rest.head?.any isBlank
    let line := c.run fun ch => !isBreak ch
    let lineBreak := (c.rest.drop line.length).take 1
    match _found : blankLines (some indent) (c.advance (line.length + lineBreak.length)) with
    | none => none
    | some lines =>
      (blockLines literal indent blank lineBreak lines.breaks lines.next).map fun tail =>
        let folds := !literal && !lastBlank && !blank
        { tail with text := joinLines folds lastBreak breaks ++ line ++ tail.text }
  else some ⟨[], lastBreak, breaks, c⟩
termination_by c.rest.length
decreasing_by
  have le := blankLines_rest_le _found
  have nonempty := List.length_pos_iff.mpr _inside.2
  have line_le : (c.run fun ch => !isBreak ch).length ≤ c.rest.length :=
    (List.takeWhile_sublist _).length_le
  simp only [line, lineBreak, Cursor.rest_advance, List.length_drop, List.length_take] at le
  omega

def blockScalar (literal : Bool) (outer : Option Nat) (c : Cursor) :
    Option (List Char × Cursor) := do
  let (header, rest) ← blockHeader? c.rest.tail
  let start ← (c.moveTo rest).finishLine?
  let least := (outer.map (· + 1)).getD 0
  let given := header.increment.map (outer.getD 0 + ·)
  let lines ← blankLines given start
  let indent := given.getD (max (max lines.widest least) 1)
  let body ← blockLines literal indent false [] lines.breaks lines.next
  let ending :=
    match header.chomping with
    | .strip => []
    | .clip => body.lastBreak
    | .keep => body.lastBreak ++ body.breaks
  return (body.text ++ ending, body.next)

end RuleLint.Yaml
