import LiveQuery.Keyed

/-!
# JSON values

A JSON value as a tree. Integers and floating-point numbers are kept apart, because `1` and `1.0`
are written differently, and the fields of an object are in ascending order of their names.
-/

namespace LiveQuery

inductive Json where
  | null
  | bool (b : Bool)
  /-- A number written without fraction and exponent, within 64 bits. -/
  | int (n : Int)
  /-- Any other number. It is finite. -/
  | float (x : Float)
  | str (s : String)
  | array (items : List Json)
  | object (fields : List (String × Json))
deriving Inhabited

namespace Json

/-- An object from its fields in any order; of several with one name the last counts. -/
def ofFields (fields : List (String × Json)) : Json := .object (Keyed.ofList fields)

/-- A number, or `null` if it is not finite and so has no JSON text. -/
def ofFloat (x : Float) : Json := if x.isFinite then .float x else .null

/-- How many arrays and objects are nested in each other at the deepest point. -/
def depth : Json → Nat
  | .array items => 1 + itemsDepth items
  | .object fields => 1 + fieldsDepth fields
  | _ => 0
where
  itemsDepth : List Json → Nat
    | [] => 0
    | j :: rest => max j.depth (itemsDepth rest)
  fieldsDepth : List (String × Json) → Nat
    | [] => 0
    | (_, j) :: rest => max j.depth (fieldsDepth rest)

/-- The deepest nesting that is read. -/
def maxDepth : Nat := 127

end Json

end LiveQuery
