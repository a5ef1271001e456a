import RuleLint.Yaml.BlockScalar
import RuleLint.Yaml.Token

/-!
Cutting a YAML text into tokens. A token may turn out to be an implicit key only when a colon
follows it on its line; then the token of the key, and that of a block mapping that begins with
it, are put in front of it after the fact.
-/

namespace RuleLint.Yaml

def maxKeyLength : Nat := 1024

/-- A place where an implicit key may begin: how many tokens stand before it, and where it is. It is
required where only a key can continue the block mapping that is being read. -/
structure KeyStart where
  tokensBefore : Nat
  position : Position
  required : Bool
deriving Repr

structure Lexer where
  cursor : Cursor
  tokens : Array Token
  blocks : List Nat
  flowDepth : Nat
  keyStart : Option KeyStart
  /-- The same for the collections around it, the innermost first, each with the depth it is at. The
  blocks around them all are at depth zero. -/
  outerStarts : List (Nat × KeyStart)
  keyAllowed : Bool
deriving Repr

namespace Lexer

def start (text : List Char) : Lexer where
  cursor := .start text
  tokens := #[]
  blocks := []
  flowDepth := 0
  keyStart := none
  outerStarts := []
  keyAllowed := true

def inFlow (s : Lexer) : Bool := s.flowDepth ≠ 0

def innerColumn (s : Lexer) : Nat := (s.blocks.head?.map (· + 1)).getD 0

def push (s : Lexer) (t : Token) : Lexer := { s with tokens := s.tokens.push t }

def take (s : Lexer) (n : Nat) (t : Token) : Lexer :=
  { s.push t with cursor := s.cursor.advance n }

/-! ## Implicit keys -/

/-- Gives up the place where an implicit key may have begun, unless a key is required there. -/
def dropKeyStart (s : Lexer) : Option Lexer :=
  if s.keyStart.any (·.required) then none else some { s with keyStart := none }

def markKeyStart (s : Lexer) : Option Lexer :=
  if s.keyAllowed then do
    let required := !s.inFlow && s.blocks.head? = some s.cursor.column
    let s ← s.dropKeyStart
    return { s with keyStart := some ⟨s.tokens.size, s.cursor.position, required⟩ }
  else some s

def KeyStart.isFresh (here : Position) (k : KeyStart) : Bool :=
  k.position.line = here.line && here.offset ≤ k.position.offset + maxKeyLength

def dropStaleStarts (s : Lexer) : Option Lexer :=
  let isFresh := KeyStart.isFresh s.cursor.position
  let isLost (k : KeyStart) : Bool := k.required && !isFresh k
  if s.keyStart.any isLost || s.outerStarts.any (isLost ·.2) then none
  else
    some { s with
      keyStart := s.keyStart.filter isFresh
      outerStarts := s.outerStarts.filter (isFresh ·.2) }

/-! ## Block collections -/

/-- Opens a block collection at a column deeper than the innermost one. Its first token goes
before the token at the index `before`. In flow collections there are no blocks. -/
def openBlock (s : Lexer) (column before : Nat) (t : Token) : Lexer :=
  if !s.inFlow && s.innerColumn ≤ column then
    { s with tokens := s.tokens.insertIdxIfInBounds before t, blocks := column :: s.blocks }
  else s

def closeBlocks (s : Lexer) (column : Nat) : Lexer :=
  if s.inFlow then s
  else
    let closed := s.blocks.takeWhile (column < ·)
    { s with
      tokens := s.tokens ++ closed.map fun _ => Token.blockEnd
      blocks := s.blocks.dropWhile (column < ·) }

def closeAllBlocks (s : Lexer) : Lexer :=
  if s.inFlow then s
  else { s with tokens := s.tokens ++ s.blocks.map fun _ => Token.blockEnd, blocks := [] }

/-! ## Between tokens -/

/-- The lexer at the next token, after blanks, comments and line breaks. In blocks a tab is refused
where an implicit key may begin, and after a line break one may. A byte order mark at the beginning
of a line is passed over and takes a column. -/
def skipGaps (s : Lexer) : Lexer :=
  let tabs := s.inFlow || !s.keyAllowed
  let line := s.cursor.advance s.cursor.markLength
  let blanks := line.run fun c => c = ' ' || (tabs && c = '\t')
  let word := line.advance blanks.length
  let comment := if word.rest.head? = some '#' then word.run fun ch => !isBreak ch else []
  let c := word.advance comment.length
  match _here : c.rest with
  | [] => { s with cursor := c }
  | ch :: _ =>
    if isBreak ch then
      skipGaps { s with cursor := c.advance 1, keyAllowed := s.keyAllowed || !s.inFlow }
    else { s with cursor := c }
termination_by s.cursor.rest.length
decreasing_by
  have left := congrArg List.length _here
  simp only [c, word, line, Cursor.rest_advance, List.length_drop, List.length_cons] at left ⊢
  omega

/-! ## Tokens -/

def betweenDocuments (s : Lexer) (read : Lexer → Option Lexer) : Option Lexer := do
  let s ← s.closeAllBlocks.dropKeyStart
  read { s with keyAllowed := false }

def directive (s : Lexer) : Option Lexer := do
  let (t, rest) ← directive? s.cursor.rest.tail
  let next ← (s.cursor.moveTo rest).finishLine?
  return { s.push t with cursor := next }

def openFlow (s : Lexer) (t : Token) : Option Lexer := do
  let s ← s.markKeyStart
  let inside := { s with
    flowDepth := s.flowDepth + 1
    outerStarts := (s.keyStart.map fun k => (s.flowDepth, k)).toList ++ s.outerStarts
    keyStart := none
    keyAllowed := true }
  return inside.take 1 t

def closeFlow (s : Lexer) (t : Token) : Option Lexer := do
  let s ← s.dropKeyStart
  let depth := s.flowDepth - 1
  let (back, outer) := s.outerStarts.partition (·.1 = depth)
  return { s.take 1 t with
    flowDepth := depth
    keyStart := back.head?.map (·.2)
    outerStarts := outer
    keyAllowed := false }

def openBlockHere (s : Lexer) (t : Token) : Option Lexer :=
  if s.inFlow then some s
  else if s.keyAllowed then some (s.openBlock s.cursor.column s.tokens.size t)
  else none

def comma (s : Lexer) : Option Lexer := do
  let s ← s.dropKeyStart
  return { s.take 1 .comma with keyAllowed := true }

def item (s : Lexer) : Option Lexer := do
  let s ← (← s.openBlockHere .blockSequence).dropKeyStart
  return { s.take 1 .item with keyAllowed := true }

def key (s : Lexer) : Option Lexer := do
  let s ← (← s.openBlockHere .blockMapping).dropKeyStart
  return { s.take 1 .key with keyAllowed := !s.inFlow }

/-- The colon before a value. What stands before it becomes an implicit key if it may be one. -/
def value (s : Lexer) : Option Lexer :=
  match s.keyStart with
  | some k =>
    let s := { s with tokens := s.tokens.insertIdxIfInBounds k.tokensBefore .key }
    let s := s.openBlock k.position.column k.tokensBefore .blockMapping
    some { s.take 1 .value with keyStart := none, keyAllowed := false }
  | none => do
    let s ← s.openBlockHere .blockMapping
    return { s.take 1 .value with keyAllowed := !s.inFlow }

def property (s : Lexer) (cs : List Char) (read : List Char → Option (Token × List Char)) :
    Option Lexer := do
  let s ← s.markKeyStart
  let (t, rest) ← read cs
  return { s.push t with cursor := s.cursor.moveTo rest, keyAllowed := false }

def literalOrFolded (s : Lexer) (literal : Bool) : Option Lexer := do
  let s ← s.dropKeyStart
  let (text, next) ← blockScalar literal s.blocks.head? s.cursor
  return { s.push (.scalar ⟨String.ofList text, false⟩) with cursor := next, keyAllowed := true }

def quoted (s : Lexer) (quote : Quote) : Option Lexer := do
  let s ← s.markKeyStart
  let (text, next) ← quotedScalar quote s.cursor
  return { s.push (.scalar ⟨String.ofList text, false⟩) with cursor := next, keyAllowed := false }

def plain (s : Lexer) : Option Lexer := do
  let s ← s.markKeyStart
  let scalar ← plainScalar s.inFlow s.innerColumn s.cursor
  return { s.push (.scalar ⟨String.ofList scalar.text, true⟩) with
    cursor := scalar.next
    keyAllowed := scalar.brokeLine }

def readToken (s : Lexer) : Option Lexer :=
  match s.cursor.rest with
  | [] => none
  | c :: rest =>
    let alone := endsWord rest
    if s.cursor.column = 0 && c = '%' then s.betweenDocuments directive
    else if s.cursor.atMarker '-' then s.betweenDocuments fun s => some (s.take 3 .documentStart)
    else if s.cursor.atMarker '.' then s.betweenDocuments fun s => some (s.take 3 .documentEnd)
    else
      match c with
      | '[' => s.openFlow .flowSequence
      | '\x7b' => s.openFlow .flowMapping
      | ']' => s.closeFlow .flowSequenceEnd
      | '\x7d' => s.closeFlow .flowMappingEnd
      | ',' => s.comma
      | '-' => if alone then s.item else s.plain
      | '?' => if s.inFlow || alone then s.key else s.plain
      | ':' => if s.inFlow || alone then s.value else s.plain
      | '*' =>
        s.property rest fun cs => (anchorName? cs).map fun (name, rest) => (.alias name, rest)
      | '&' =>
        s.property rest fun cs => (anchorName? cs).map fun (name, rest) => (.anchor name, rest)
      | '!' => s.property (c :: rest) (tag? s.inFlow)
      | '|' => if s.inFlow then none else s.literalOrFolded true
      | '>' => if s.inFlow then none else s.literalOrFolded false
      | '\'' => s.quoted .single
      | '"' => s.quoted .double
      | '%' | '@' | '\x60' | '\t' => none
      | _ => s.plain

def finish (s : Lexer) : Option (List Token) := s.closeAllBlocks.dropKeyStart.map (·.tokens.toList)

def run (s : Lexer) (fuel : Nat) : Option (List Token) :=
  match s.skipGaps.dropStaleStarts with
  | none => none
  | some here =>
    let here := here.closeBlocks here.cursor.column
    if here.cursor.rest = [] then here.finish
    else
      match fuel with
      | 0 => none
      | fuel + 1 =>
        match here.readToken with
        | none => none
        | some next => next.run fuel

end Lexer

/-- The tokens of a YAML text, if it has the characters and the tokens of one. A token takes at
least one character, so there are no more tokens than characters. -/
def tokenize (text : String) : Option (List Token) :=
  if text.toList.all isPrintable then
    (Lexer.start (normalizeBreaks text.toList)).run text.toList.length
  else none

end RuleLint.Yaml
