import LiveQuery.Decimal.Numeral
import LiveQuery.Query.Error

/-!
# Literals

A token of a statement denotes a constant if it is an integer of 64 bits, a decimal number or one
complete quoted string, tried in this order. An integer that does not fit is a decimal number.
Everything else is left for calls and paths, also `inf`, `nan` and digits with two points.
-/

namespace LiveQuery.Literal

open Decimal (digitRun digitsValue exponentPart unsigned?)

/-- Whether a sign is a minus, and what follows it. Without a sign it is not. -/
def splitSign (cs : List Char) : Bool × List Char :=
  match cs with
  | '-' :: rest => (true, rest)
  | '+' :: rest => (false, rest)
  | cs => (false, cs)

/-- The integer that a token denotes: a sign if one likes and digits, from `-2⁶³` to `2⁶³ - 1`. -/
def integer? (token : List Char) : Option Int :=
  let (negative, digits) := splitSign token
  match unsigned? digits with
  | none => none
  | some n =>
    let i : Int := if negative then -n else n
    if Decimal.fitsWord i then some i else none

/-- The digits behind a point and what follows them; without a point there are none. -/
def places (cs : List Char) : List Char × List Char :=
  match cs with
  | '.' :: rest => digitRun rest
  | cs => ([], cs)

/-- The number that a token denotes: a sign if one likes, digits with at most one point before,
among or behind them, and an exponent if one likes. It is the nearest double, an infinity if it is
too large. -/
def decimal? (token : List Char) : Option Float :=
  let (negative, rest) := splitSign token
  let (whole, rest) := digitRun rest
  let (fraction, rest) := places rest
  if whole ++ fraction = [] then none
  else match exponentPart rest with
    | some (exponent, []) =>
      some (Decimal.nearest negative (digitsValue (whole ++ fraction))
        (exponent.getD 0 - fraction.length))
    | _ => none

/-- The character that an escape stands for. -/
def escapeCode? (c : Char) : Option Char :=
  match c with
  | '\x5c' => some '\x5c'
  | '\x22' => some '\x22'
  | '\x27' => some '\x27'
  | '\x60' => some '\x60'
  | 'n' => some '\n'
  | 't' => some '\t'
  | 'r' => some '\r'
  | '0' => some '\x00'
  | _ => none

/-- The characters inside a string that ends with the quote `q`, read behind the opening one. The
closing quote is the last character of the text. -/
def escapedBody? (q : Char) : List Char → Option (List Char)
  | [] => none
  | [c] => if c = q then some [] else none
  | c :: d :: rest =>
    if c = q then none
    else if c = '\x5c' then
      match escapeCode? d with
      | none => none
      | some e => (escapedBody? q rest).map (e :: ·)
    else (escapedBody? q (d :: rest)).map (c :: ·)

/-- The characters inside a string without escapes, read behind the opening quote. -/
def rawBody? (q : Char) : List Char → Option (List Char)
  | [] => none
  | [c] => if c = q then some [] else none
  | c :: d :: rest => if c = q then none else (rawBody? q (d :: rest)).map (c :: ·)

/-- The string that a token denotes. Backticks enclose a string without escapes. -/
def string? (token : List Char) : Option String :=
  match token with
  | '\x22' :: rest => (escapedBody? '\x22' rest).map String.ofList
  | '\x27' :: rest => (escapedBody? '\x27' rest).map String.ofList
  | '\x60' :: rest => (rawBody? '\x60' rest).map String.ofList
  | _ => none

/-- The constant that a token denotes. -/
def parse (token : List Char) : QueryResult :=
  match integer? token with
  | some n => .ok (.int n)
  | none =>
    match decimal? token with
    | some x => .ok (.float x)
    | none =>
      match string? token with
      | some s => .ok (.str s)
      | none => .error (.unparseableLiteral (String.ofList token))

end LiveQuery.Literal
