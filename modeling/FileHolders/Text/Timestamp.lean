import FileHolders.Text.Hex

/-!
# Points in time as text

A point in time is counted from the start of 1970.  Its text is the calendar date and the time of
day, the fraction with as many groups of three digits as it needs, and `Z` for the zone.
-/

namespace FileHolders.Text

/-- A point in time: seconds since the start of 1970 and a fraction.  A fraction of a second or more
lies in the leap second that follows the last second of a minute. -/
structure Timestamp where
  seconds : Int
  nanoseconds : Nat
deriving DecidableEq, Repr

namespace Timestamp

/-- A day of the calendar. -/
structure Date where
  year : Int
  month : Nat
  day : Nat
deriving DecidableEq, Repr

/-- The date that is `days` after the first of January 1970.  Years are counted from March, so that
the day that only some years have comes last, and 400 years have 146097 days. -/
def dateOf (days : Int) : Date :=
  let shifted := days + 719468
  let era := shifted.fdiv 146097
  let dayOfEra := (shifted - era * 146097).toNat
  let yearOfEra :=
    (dayOfEra - dayOfEra / 1460 + dayOfEra / 36524 - dayOfEra / 146096) / 365
  let dayOfYear := dayOfEra - (365 * yearOfEra + yearOfEra / 4 - yearOfEra / 100)
  let fromMarch := (5 * dayOfYear + 2) / 153
  let month := if fromMarch < 10 then fromMarch + 3 else fromMarch - 9
  { year := yearOfEra + era * 400 + (if month ≤ 2 then 1 else 0)
    month
    day := dayOfYear - (153 * fromMarch + 2) / 5 + 1 }

/-- Four digits for the years 0 to 9999, else a sign and at least four digits. -/
def yearText (year : Int) : String :=
  if 0 ≤ year ∧ year ≤ 9999 then decimalPadded 4 year.toNat
  else if 0 ≤ year then "+" ++ decimalPadded 4 year.toNat
  else "-" ++ decimalPadded 4 year.natAbs

/-- The fraction of a second with no, three, six or nine digits. -/
def fractionText (nanoseconds : Nat) : String :=
  if nanoseconds = 0 then ""
  else if nanoseconds % 1000000 = 0 then "." ++ decimalPadded 3 (nanoseconds / 1000000)
  else if nanoseconds % 1000 = 0 then "." ++ decimalPadded 6 (nanoseconds / 1000)
  else "." ++ decimalPadded 9 nanoseconds

/-- Date, time of day, fraction and zone.  A leap second is the second 60 of its minute. -/
def render (t : Timestamp) : String :=
  let date := dateOf (t.seconds.fdiv 86400)
  let second := (t.seconds.fmod 86400).toNat
  let leap := t.nanoseconds / 1000000000
  yearText date.year ++ "-" ++ decimalPadded 2 date.month ++ "-" ++ decimalPadded 2 date.day ++
    "T" ++ decimalPadded 2 (second / 3600) ++ ":" ++ decimalPadded 2 (second / 60 % 60) ++ ":" ++
    decimalPadded 2 (second % 60 + leap) ++ fractionText (t.nanoseconds % 1000000000) ++ "Z"

end Timestamp

end FileHolders.Text
