/-!
# The text of a span of time

A span is written in the largest unit of which it holds at least one: seconds, milliseconds,
microseconds or nanoseconds. What is left over follows as a decimal fraction without trailing zeros.
-/

namespace LiveQuery.Text

/-- The last `places` decimal digits of `n`, without trailing zeros and behind a point; nothing if
they are all zero. -/
def fractionText (n places : Nat) : String :=
  let digits := (Nat.toDigits 10 (Nat.pow 10 places + n % Nat.pow 10 places)).drop 1
  match (digits.reverse.dropWhile (· == '0')).reverse with
  | [] => ""
  | ds => "." ++ String.ofList ds

/-- `n` in a unit of `10^places`, with its fraction and the name of the unit. -/
def inUnit (n places : Nat) (unit : String) : String :=
  Nat.repr (n / Nat.pow 10 places) ++ fractionText n places ++ unit

/-- The text of a span given in nanoseconds. -/
def duration (nanoseconds : Nat) : String :=
  if 1000000000 ≤ nanoseconds then inUnit nanoseconds 9 "s"
  else if 1000000 ≤ nanoseconds then inUnit nanoseconds 6 "ms"
  else if 1000 ≤ nanoseconds then inUnit nanoseconds 3 "µs"
  else inUnit nanoseconds 0 "ns"

end LiveQuery.Text
