/-!
Nonnegative numbers in binary64: a significand below `2 ^ 53` times a power of two whose
exponent is at least `-1074`, or infinity. A decimal numeral stands for the nearest such number,
and a number is written with the fewest decimal digits that stand for it.
-/

namespace RuleLint.Decimal

/-- `finite m q` is `m * 2 ^ q`. Where `m` is below `2 ^ 52` the exponent is `-1074`. -/
inductive Binary64
  | finite (significand : Nat) (exponent : Int)
  | infinite
deriving DecidableEq, Repr, Inhabited

def roundHalfEven (num den : Nat) : Nat :=
  let quotient := num / den
  let twice := 2 * (num % den)
  if twice < den then quotient
  else if den < twice then quotient + 1
  else quotient + quotient % 2

def scaled (num den : Nat) (shift : Int) : Nat × Nat :=
  (num * Nat.pow 2 shift.toNat, den * Nat.pow 2 (-shift).toNat)

def binaryOrder (num den : Nat) : Int :=
  let e : Int := (Nat.log2 num : Int) - (Nat.log2 den : Int)
  let (n, d) := scaled num den (-e)
  if n < d then e - 1 else e

namespace Binary64

def leastExponent : Int := -1074

/-- The number nearest to `num / den`, infinity from `2 ^ 1024` less half a unit on. -/
def ofRatio (num den : Nat) : Binary64 :=
  if num = 0 then .finite 0 leastExponent
  else
    let q := max (binaryOrder num den - 52) leastExponent
    let (n, d) := scaled num den (-q)
    let m := roundHalfEven n d
    let (m, q) := if m = Nat.pow 2 53 then (Nat.pow 2 52, q + 1) else (m, q)
    if 971 < q then .infinite else .finite m q

def digitsValue (digits : List Char) : Nat :=
  digits.foldl (fun value c => 10 * value + (c.toNat - '0'.toNat)) 0

def ofDigits (whole fraction : List Char) : Binary64 :=
  ofRatio (digitsValue (whole ++ fraction)) (Nat.pow 10 fraction.length)

/-- The numerals that stand for `m * 2 ^ q` lie between `low` and `high` quarters of `2 ^ q`; the
ends belong to them when `m` is even. -/
structure Span where
  low : Nat
  middle : Nat
  high : Nat
  closed : Bool

def span (m : Nat) (q : Int) : Span where
  low := if m = Nat.pow 2 52 ∧ leastExponent < q then 4 * m - 1 else 4 * m - 2
  middle := 4 * m
  high := 4 * m + 2
  closed := m % 2 = 0

def Span.gridPoint? (s : Span) (q p : Int) : Option Nat :=
  let unit := Nat.pow 2 (q - 2).toNat * Nat.pow 10 (-p).toNat
  let grid := Nat.pow 10 p.toNat * Nat.pow 2 (2 - q).toNat
  let inside (n : Nat) : Bool :=
    if s.closed then s.low * unit ≤ n * grid && n * grid ≤ s.high * unit
    else s.low * unit < n * grid && n * grid < s.high * unit
  let below := s.middle * unit / grid
  let above := below + 1
  let nearBelow := 2 * (s.middle * unit % grid) < grid
  match inside below, inside above with
  | true, true => some (if nearBelow then below else above)
  | true, false => some below
  | false, true => some above
  | false, false => none

/-- The first grid, from `10 ^ p` downwards, with a point in the span. Seventeen digits always
have one, so that the steps suffice. -/
def Span.shortest (s : Span) (q : Int) : Nat → Int → Nat × Int
  | 0, p =>
    (s.middle * Nat.pow 2 (q - 2).toNat * Nat.pow 10 (-p).toNat /
      (Nat.pow 10 p.toNat * Nat.pow 2 (2 - q).toNat), p)
  | steps + 1, p =>
    match s.gridPoint? q p with
    | some n => (n, p)
    | none => s.shortest q steps (p - 1)

def positional (n : Nat) (p : Int) : String :=
  let digits := Nat.toDigits 10 n
  if 0 ≤ p then String.ofList (digits ++ List.replicate p.toNat '0')
  else
    let places := (-p).toNat
    let padded := List.replicate (places + 1 - digits.length) '0' ++ digits
    let whole := padded.length - places
    String.ofList (padded.take whole ++ '.' :: padded.drop whole)

def text : Binary64 → String
  | .infinite => "inf"
  | .finite 0 _ => "0"
  | .finite m q =>
    let top := ((Nat.log2 m : Int) + q + 1) * 30103 / 100000 + 1
    let (n, p) := (span m q).shortest q 24 top
    positional n p

end Binary64

end RuleLint.Decimal
