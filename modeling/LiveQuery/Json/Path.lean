import LiveQuery.Json.Basic
import LiveQuery.Decimal.Numeral

/-!
# Paths into a JSON value

A path is a text whose segments are separated by points. Each segment descends one level: by name
into an object, by position into an array. A path that leads nowhere finds nothing, which is
different from finding `null`.
-/

namespace LiveQuery.Json

/-- The pieces between the points of a text. There is always one, and points at the ends or next to
each other give empty pieces. -/
def segments : List Char → List (List Char)
  | [] => [[]]
  | c :: rest =>
    if c = '.' then [] :: segments rest
    else match segments rest with
      | [] => [[c]]
      | s :: more => (c :: s) :: more

/-- The position that a segment denotes: decimal digits, with a plus sign in front if one likes, for
a number below `2⁶⁴`. -/
def position? (segment : List Char) : Option Nat := Decimal.unsignedBelow? (Nat.pow 2 64) segment

/-- One level down. Nothing is below a scalar. -/
def child? (j : Json) (segment : List Char) : Option Json :=
  match j with
  | .object fields => Keyed.find? (String.ofList segment) fields
  | .array items => (position? segment).bind fun i => items[i]?
  | _ => none

/-- Follows segments downwards. -/
def descend (j : Json) : List (List Char) → Option Json
  | [] => some j
  | segment :: rest => (j.child? segment).bind fun k => descend k rest

def at? (j : Json) (path : String) : Option Json := j.descend (segments path.toList)

end LiveQuery.Json
