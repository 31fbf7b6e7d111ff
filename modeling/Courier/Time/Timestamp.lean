import Courier.Text.Decimal

/-!
# Timestamps

Log lines and journal entries carry the wall time in UTC as RFC 3339 writes it:
`2023-11-14T22:13:20+00:00`, with three, six or nine decimals of the second where fewer would
not be exact.
-/

namespace Courier.Timestamp

structure Date where
  year : Int
  month : Nat
  day : Nat
deriving Repr, DecidableEq

/-- The date of a day counted from 1970-01-01. Days are counted in eras of 400 years that begin
on 1 March, so that a leap day is the last of its year. -/
def dateOf (day : Int) : Date :=
  let shifted := day + 719468
  let era := shifted / 146097
  let inEra := (shifted % 146097).toNat
  let yearOfEra := (inEra - inEra / 1460 + inEra / 36524 - inEra / 146096) / 365
  let inYear := inEra - (365 * yearOfEra + yearOfEra / 4 - yearOfEra / 100)
  let fromMarch := (5 * inYear + 2) / 153
  let month := if fromMarch < 10 then fromMarch + 3 else fromMarch - 9
  { year := era * 400 + yearOfEra + (if month ≤ 2 then 1 else 0)
    month
    day := inYear - (153 * fromMarch + 2) / 5 + 1 }

/-- Years of four digits are written plain, all others with a sign. -/
def yearText (year : Int) : List Char :=
  if 0 ≤ year ∧ year ≤ 9999 then Decimal.padded 4 year.toNat
  else (if year < 0 then '-' else '+') :: Decimal.padded 4 year.natAbs

def fraction (nanos : Nat) : List Char :=
  if nanos = 0 then []
  else if nanos % 1000000 = 0 then '.' :: Decimal.padded 3 (nanos / 1000000)
  else if nanos % 1000 = 0 then '.' :: Decimal.padded 6 (nanos / 1000)
  else '.' :: Decimal.padded 9 nanos

def renderChars (wall : Int) : List Char :=
  let seconds := wall / 1000000000
  let nanos := (wall % 1000000000).toNat
  let date := dateOf (seconds / 86400)
  let inDay := (seconds % 86400).toNat
  let two := Decimal.padded 2
  yearText date.year ++ '-' :: two date.month ++ '-' :: two date.day ++ 'T' :: two (inDay / 3600)
    ++ ':' :: two (inDay / 60 % 60) ++ ':' :: two (inDay % 60) ++ fraction nanos ++ "+00:00".toList

/-- The wall time `wall`, in nanoseconds since the start of 1970. -/
def render (wall : Int) : String :=
  String.ofList (renderChars wall)

example : render 1700000000000000000 = "2023-11-14T22:13:20+00:00" := by decide +kernel
example : render (-1) = "1969-12-31T23:59:59.999999999+00:00" := by decide +kernel

end Courier.Timestamp
