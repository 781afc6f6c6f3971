import LiveQuery.Query.Call
import LiveQuery.Window.Retained

/-!
# Expressions

The tree of a statement together with what it remembers between events: the elements of its windows,
its running totals, its counters and the labels that its events gave it. An aggregate owns its
window, so there is no aggregate over anything else.
-/

namespace LiveQuery

inductive Operator where
  | add
  | subtract
  | multiply
  | divide
deriving DecidableEq, Repr

namespace Operator

def name : Operator → String
  | .add => "Add"
  | .subtract => "Subtract"
  | .multiply => "Multiply"
  | .divide => "Divide"

def ofName? (name : String) : Option Operator :=
  [add, subtract, multiply, divide].find? (·.name == name)

/-- The result on two numbers. Dividing by zero gives an infinity or no number. -/
def apply (op : Operator) (x y : Float) : Float :=
  match op with
  | .add => x + y
  | .subtract => x - y
  | .multiply => x * y
  | .divide => x / y

end Operator

inductive Aggregate where
  | average
  | sum
deriving DecidableEq, Repr

def Aggregate.name : Aggregate → String
  | .average => "WindowAve"
  | .sum => "WindowSum"

/-- An expression with its state. -/
inductive Expr where
  | literal (value : Value)
  /-- The value of the event at the path that `key` gives. -/
  | lookup (key : Expr)
  /-- The value of `value`, shown under the label that `name` gave it last. -/
  | labelled (value name : Expr) (label : Option String)
  | arithmetic (op : Operator) (left right : Expr)
  /-- A window of the values of `element`, and its bound. -/
  | window (retained : Window.Retained) (element bound : Expr)
  /-- An aggregate of a window, and the running total of the window's elements. -/
  | aggregate (kind : Aggregate) (retained : Window.Retained) (element bound : Expr) (total : Float)
  /-- One of every `count` values; `seen` values have passed so far, counted in 64 bits. -/
  | everyNth (element count : Expr) (seen : UInt64)
  /-- A value with a certain probability. -/
  | sample (element probability : Expr)
deriving Inhabited

namespace Expr

/-- Whether a text can stand for a path: it is not empty, and blanks, parentheses, commas and quotes
do not occur in it. -/
def isPath (cs : List Char) : Bool :=
  cs ≠ [] && !cs.any fun c =>
    Text.isBlank c || c == '(' || c == ')' || c == ',' || Call.Scan.isQuote c

/-- A bare path is a look-up with a constant key. -/
def ofPath (cs : List Char) : Except QueryError Expr :=
  if isPath cs then .ok (.lookup (.literal (.str (String.ofList cs))))
  else .error (.invalidPath (String.ofList cs))

/-- A call in a statement's notation. -/
def callText (function : String) (args : List String) : String :=
  function ++ "(" ++ String.intercalate "," args ++ ")"

/-- The expression as a statement. A look-up shows its key alone, and a labelled expression its
label. -/
def display : Expr → String
  | .literal value => value.text
  | .lookup key => key.display
  | .labelled _ _ (some label) => label
  | .labelled value _ none => value.display
  | .arithmetic op left right => callText op.name [left.display, right.display]
  | .window retained element bound =>
    callText retained.functionName [element.display, bound.display]
  | .aggregate kind retained element bound _ =>
    callText kind.name [callText retained.functionName [element.display, bound.display]]
  | .everyNth element count _ => callText "EveryNth" [element.display, count.display]
  | .sample element probability => callText "RandomSample" [element.display, probability.display]

def retained? : Expr → Option Window.Retained
  | .window retained _ _ => some retained
  | _ => none

end Expr

end LiveQuery
