/-!
# Points in time

A point in time is a number of nanoseconds since the beginning of 1970, and its text is a date and a
time of day in UTC. Every day has 86400 seconds.
-/

namespace LiveQuery.Text

structure Date where
  year : Nat
  month : Nat
  day : Nat
deriving DecidableEq, Repr

/-- The date of a day counted from the first of January 1970. Years are taken to begin in March, so
that a leap day is the last of its year, and are grouped in eras of 400 years, which all have the
same number of days. -/
def Date.ofDays (days : Nat) : Date :=
  let sinceEra := days + 719468
  let era := sinceEra / 146097
  let dayOfEra := sinceEra % 146097
  let yearOfEra := (dayOfEra - dayOfEra / 1460 + dayOfEra / 36524 - dayOfEra / 146096) / 365
  let dayOfYear := dayOfEra - (365 * yearOfEra + yearOfEra / 4 - yearOfEra / 100)
  let monthFromMarch := (5 * dayOfYear + 2) / 153
  let day := dayOfYear - (153 * monthFromMarch + 2) / 5 + 1
  let month := if monthFromMarch < 10 then monthFromMarch + 3 else monthFromMarch - 9
  ⟨400 * era + yearOfEra + (if month ≤ 2 then 1 else 0), month, day⟩

/-- A number with zeros in front, up to a width. -/
def padded (width n : Nat) : String :=
  let digits := Nat.repr n
  String.ofList (List.replicate (width - digits.length) '0') ++ digits

/-- A fraction of a second, in thousandths if that is exact, else in millionths, else in full;
nothing for a whole second. -/
def secondFraction (nanoseconds : Nat) : String :=
  if nanoseconds = 0 then ""
  else if nanoseconds % 1000000 = 0 then "." ++ padded 3 (nanoseconds / 1000000)
  else if nanoseconds % 1000 = 0 then "." ++ padded 6 (nanoseconds / 1000)
  else "." ++ padded 9 nanoseconds

/-- A point in time as text, such as `1970-01-01T00:00:00+00:00`. -/
def timestamp (nanoseconds : Nat) : String :=
  let seconds := nanoseconds / 1000000000
  let date := Date.ofDays (seconds / 86400)
  let time := seconds % 86400
  padded 4 date.year ++ "-" ++ padded 2 date.month ++ "-" ++ padded 2 date.day
    ++ "T" ++ padded 2 (time / 3600) ++ ":" ++ padded 2 (time / 60 % 60)
    ++ ":" ++ padded 2 (time % 60)
    ++ secondFraction (nanoseconds % 1000000000) ++ "+00:00"

end LiveQuery.Text
