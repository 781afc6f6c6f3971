import LiveQuery.Keyed
import LiveQuery.Query.Expr

/-!
# Functions

A statement calls functions by name. A `Builder` makes the expression of a call; a `Registry` says
which names there are, how many arguments each takes, and which builder serves it. The number of
arguments is compared with the registry first, and then each builder asks for the number that it
needs itself, so a function that is registered with another number can never be called.
-/

namespace LiveQuery

inductive Builder where
  | lookup
  | labelled
  | arithmetic
  | rollingWindow
  | timedWindow
  | average
  | sum
  | everyNth
  | sample
deriving DecidableEq, Repr

namespace Builder

def arity : Builder → Nat
  | .lookup | .average | .sum => 1
  | _ => 2

def arityError (function : String) (expected : Nat) (args : List Expr) : QueryError :=
  .arity function expected args.length

/-- An aggregate takes its window over, with a total of zero: the window is fresh. -/
def aggregate (kind : Aggregate) (function : String) : Expr → Except QueryError Expr
  | .window retained element bound => .ok (.aggregate kind retained element bound 0.0)
  | _ => .error (.invalidArgument function .notAWindow)

/-- The expression of a call. An operator has to exist before its operands are counted. -/
def build (b : Builder) (function : String) (args : List Expr) : Except QueryError Expr :=
  match b, args with
  | .lookup, [key] => .ok (.lookup key)
  | .labelled, [value, name] => .ok (.labelled value name none)
  | .arithmetic, args =>
    match Operator.ofName? function, args with
    | none, _ => .error (.invalidArgument function .unsupportedOperator)
    | some op, [left, right] => .ok (.arithmetic op left right)
    | some _, args => .error (arityError function 2 args)
  | .rollingWindow, [element, bound] => .ok (.window (.rolling []) element bound)
  | .timedWindow, [element, bound] => .ok (.window (.timed []) element bound)
  | .average, [window] => aggregate .average function window
  | .sum, [window] => aggregate .sum function window
  | .everyNth, [element, count] => .ok (.everyNth element count 0)
  | .sample, [element, probability] => .ok (.sample element probability)
  | b, args => .error (arityError function b.arity args)

end Builder

structure Function where
  arity : Nat
  builder : Builder
deriving DecidableEq, Repr

structure Registry where
  functions : List (String × Function)
deriving DecidableEq, Repr

namespace Registry

def empty : Registry := ⟨[]⟩

/-- Registers a function. One of the same name is replaced. -/
def register (r : Registry) (name : String) (arity : Nat) (builder : Builder) : Registry :=
  ⟨Keyed.insert name ⟨arity, builder⟩ r.functions⟩

def find? (r : Registry) (name : String) : Option Function := Keyed.find? name r.functions

def contains (r : Registry) (name : String) : Bool := (r.find? name).isSome

/-- Names and numbers of arguments, in ascending order of the names. -/
def signatures (r : Registry) : List (String × Nat) :=
  r.functions.map fun (name, f) => (name, f.arity)

/-- The functions of the language. -/
def builtin : Registry :=
  [ ("GetDeep", Builder.lookup), ("As", .labelled), ("Add", .arithmetic), ("Subtract", .arithmetic),
    ("Multiply", .arithmetic), ("Divide", .arithmetic), ("RollingWindow", .rollingWindow),
    ("TimedWindow", .timedWindow), ("WindowAve", .average), ("WindowSum", .sum),
    ("EveryNth", .everyNth), ("RandomSample", .sample) ].foldl
      (fun r (name, builder) => r.register name builder.arity builder) empty

/-- The expression of a call by name. -/
def build (r : Registry) (name : String) (args : List Expr) : Except QueryError Expr :=
  match r.find? name with
  | none => .error (.unrecognizedFunction name)
  | some f =>
    if args.length ≠ f.arity then .error (.arity name f.arity args.length)
    else f.builder.build name args

end Registry

end LiveQuery
