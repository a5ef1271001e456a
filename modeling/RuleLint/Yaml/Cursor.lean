namespace RuleLint.Yaml

def isBreak (c : Char) : Bool := c = '\n' || c = '\u2028' || c = '\u2029'

def isBlank (c : Char) : Bool := c = ' ' || c = '\t'

def isGap (c : Char) : Bool := isBlank c || isBreak c

def isNameChar (c : Char) : Bool := c.isAlphanum || c = '_' || c = '-'

def isPrintable (c : Char) : Bool :=
  c = '\t' || c = '\n' || c = '\r' || (' ' ≤ c && c ≤ '~') || c = '\x85' ||
    ('\u00a0' ≤ c && c ≤ '\ufffd') || 0x10000 ≤ c.toNat

def byteOrderMark : Char := '\ufeff'

def normalizeBreaks : List Char → List Char
  | '\r' :: '\n' :: cs => '\n' :: normalizeBreaks cs
  | '\r' :: cs => '\n' :: normalizeBreaks cs
  | '\x85' :: cs => '\n' :: normalizeBreaks cs
  | c :: cs => c :: normalizeBreaks cs
  | [] => []

def endsWord : List Char → Bool
  | [] => true
  | c :: _ => isGap c

structure Position where
  line : Nat
  column : Nat
  offset : Nat
deriving DecidableEq, Repr, Inhabited

def Position.after (p : Position) (c : Char) : Position :=
  if isBreak c then ⟨p.line + 1, 0, 0⟩ else ⟨p.line, p.column + 1, p.offset + c.utf8Size⟩

structure Cursor where
  position : Position
  rest : List Char
deriving Repr, Inhabited

namespace Cursor

def start (text : List Char) : Cursor := ⟨⟨0, 0, 0⟩, text⟩

def column (c : Cursor) : Nat := c.position.column

def advance (c : Cursor) (n : Nat) : Cursor :=
  ⟨(c.rest.take n).foldl Position.after c.position, c.rest.drop n⟩

def moveTo (c : Cursor) (rest : List Char) : Cursor := c.advance (c.rest.length - rest.length)

def run (c : Cursor) (p : Char → Bool) : List Char := c.rest.takeWhile p

def skip (c : Cursor) (p : Char → Bool) : Cursor := c.advance (c.run p).length

@[simp] theorem rest_advance (c : Cursor) (n : Nat) : (c.advance n).rest = c.rest.drop n := rfl

def markLength (c : Cursor) : Nat :=
  if c.column = 0 && c.rest.head? = some byteOrderMark then 1 else 0

def atMarker (c : Cursor) (mark : Char) : Bool :=
  c.column = 0 && c.rest.take 3 = [mark, mark, mark] && endsWord (c.rest.drop 3)

def atDocumentMarker (c : Cursor) : Bool := c.atMarker '-' || c.atMarker '.'

def finishLine? (c : Cursor) : Option Cursor :=
  let c := c.skip isBlank
  let c := if c.rest.head? = some '#' then c.skip fun ch => !isBreak ch else c
  match c.rest with
  | [] => some c
  | ch :: _ => if isBreak ch then some (c.advance 1) else none

end Cursor

end RuleLint.Yaml
