namespace RuleLint.Text

structure Timestamp where
  seconds : Nat
  nanoseconds : Nat
deriving DecidableEq, Repr

namespace Timestamp

structure Date where
  year : Nat
  month : Nat
  day : Nat
deriving DecidableEq, Repr

def daysOfEra : Nat := 146097

def daysBefore1970 : Nat := 719468

/-- The date so many days after the beginning of 1970. Years are counted from March, so that a leap
day ends its year; of five months from March on each group has 153 days. -/
def dateOfDay (day : Nat) : Date :=
  let days := day + daysBefore1970
  let era := days / daysOfEra
  let dayOfEra := days % daysOfEra
  let yearOfEra := (dayOfEra - dayOfEra / 1460 + dayOfEra / 36524 - dayOfEra / 146096) / 365
  let dayOfYear := dayOfEra - (365 * yearOfEra + yearOfEra / 4 - yearOfEra / 100)
  let monthFromMarch := (5 * dayOfYear + 2) / 153
  let month := if monthFromMarch < 10 then monthFromMarch + 3 else monthFromMarch - 9
  { year := yearOfEra + 400 * era + (if month ≤ 2 then 1 else 0)
    month := month
    day := dayOfYear - (153 * monthFromMarch + 2) / 5 + 1 }

def padded (width n : Nat) : String :=
  let digits := toString n
  String.ofList (List.replicate (width - digits.length) '0') ++ digits

def fraction (nanoseconds : Nat) : String :=
  if nanoseconds = 0 then ""
  else if nanoseconds % 1000000 = 0 then "." ++ padded 3 (nanoseconds / 1000000)
  else if nanoseconds % 1000 = 0 then "." ++ padded 6 (nanoseconds / 1000)
  else "." ++ padded 9 nanoseconds

def text (t : Timestamp) : String :=
  let date := dateOfDay (t.seconds / 86400)
  let second := t.seconds % 86400
  padded 4 date.year ++ "-" ++ padded 2 date.month ++ "-" ++ padded 2 date.day ++ "T" ++
    padded 2 (second / 3600) ++ ":" ++ padded 2 (second / 60 % 60) ++ ":" ++
    padded 2 (second % 60) ++ fraction t.nanoseconds ++ "Z"

end Timestamp

end RuleLint.Text
