import LiveQuery.Json.Writer
import LiveQuery.Decimal.Nearest

/-!
# Values of a query

What an expression evaluates to. Numbers of an event are floating-point numbers here, however they
were written; the only integers are literals of a statement. An array or an object of an event stays
whole.
-/

namespace LiveQuery

inductive ValueType where
  | null
  | bool
  | int
  | float
  | string
  | array
  | object
deriving DecidableEq, Repr

def ValueType.name : ValueType → String
  | .null => "null"
  | .bool => "bool"
  | .int => "int"
  | .float => "float"
  | .string => "string"
  | .array => "array"
  | .object => "object"

inductive Value where
  | null
  | bool (b : Bool)
  | int (n : Int)
  | float (x : Float)
  | str (s : String)
  /-- An array or an object. -/
  | composite (document : Json)
deriving Inhabited

namespace Value

/-- The value that stands for a JSON value. -/
def ofJson : Json → Value
  | .null => .null
  | .bool b => .bool b
  | .int n => .float (Decimal.nearestInt n)
  | .float x => .float x
  | .str s => .str s
  | .array items => .composite (.array items)
  | .object fields => .composite (.object fields)

/-- The JSON value that stands for a value. A number that is not finite has none and becomes `null`.
-/
def toJson : Value → Json
  | .null => .null
  | .bool b => .bool b
  | .int n => .int n
  | .float x => .ofFloat x
  | .str s => .str s
  | .composite document => document

def type : Value → ValueType
  | .null => .null
  | .bool _ => .bool
  | .int _ => .int
  | .float _ => .float
  | .str _ => .string
  | .composite (.array _) => .array
  | .composite _ => .object

def isNull : Value → Bool
  | .null => true
  | _ => false

/-- The number that a value is, if it is one. -/
def number? : Value → Option Float
  | .float x => some x
  | .int n => some (Decimal.nearestInt n)
  | _ => none

def string? : Value → Option String
  | .str s => some s
  | _ => none

/-- The text of a value: a string stands for itself, and a composite value is written as JSON. -/
def text : Value → String
  | .null => "null"
  | .bool true => "true"
  | .bool false => "false"
  | .int n => toString n
  | .float x => Decimal.Layout.plainNumber.text x
  | .str s => s
  | .composite document => document.render

end Value

end LiveQuery
