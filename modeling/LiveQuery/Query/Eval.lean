import LiveQuery.Query.Expr
import LiveQuery.Window.Total
import LiveQuery.Json.Path

/-!
# Evaluating an expression on an event

`Expr.evalOn` takes an expression and one occasion: the event, and what the clock shows and chance
draws wherever the expression asks for them. It gives back the expression in its new state and the
value, or why there is none. Evaluation also moves on after a failure: both operands of an operator
and both parts of a labelled expression see every event, so the windows inside stay in step with the
feed whatever happens beside them. `Expr.eval` is the case of a moment, at which one reading of the
clock and one draw serve the whole expression.
-/

namespace LiveQuery

/-- One event and the circumstances of its evaluation. -/
structure Moment where
  event : Json
  /-- The reading of the clock, in nanoseconds. -/
  now : Nat
  /-- A number drawn evenly from zero up to, but not including, one. -/
  draw : Float

/-- The way from an expression down to one of its parts: the number of the part to take at each
step. -/
abbrev Place := List Nat

/-- One event as an expression meets it. Every part reads the clock and draws on its own. -/
structure Occasion where
  event : Json
  /-- The readings of the clock, in nanoseconds. -/
  now : Place → Nat
  /-- Numbers drawn evenly from zero up to, but not including, one. -/
  draw : Place → Float

/-- A moment as an occasion: what the clock shows and chance draws is the same everywhere. -/
def Moment.everywhere (m : Moment) : Occasion := ⟨m.event, fun _ => m.now, fun _ => m.draw⟩

/-- The occasion as one of the parts meets it. -/
def Occasion.within (o : Occasion) (part : Nat) : Occasion :=
  ⟨o.event, fun place => o.now (part :: place), fun place => o.draw (part :: place)⟩

namespace Expr

/-- The value of an event at a path; a path that leads nowhere gives `null`. -/
def resolve (event : Json) (key : Value) : QueryResult :=
  match key with
  | .str path =>
    if path = "" then .error (.expectedString key.type key.text)
    else .ok ((event.at? path).elim .null Value.ofJson)
  | _ => .error (.expectedString key.type key.text)

/-- A bound is an integer that is not negative. -/
def boundOf (function : String) : Value → Except QueryError Nat
  | .int (.ofNat n) => .ok n
  | v => .error (.invalidBound function v.type)

/-- An operand is a number. -/
def operandOf (op : Operator) (position : Nat) (v : Value) : Except QueryError Float :=
  match v.number? with
  | some x => .ok x
  | none => .error (.operandType op.name position v.type)

/-- The result of an operator on what its operands gave. A failure of the left one comes first, then
one of the right one, then their types. -/
def operate (op : Operator) (left right : QueryResult) : QueryResult := do
  let left ← left
  let right ← right
  let x ← operandOf op 1 left
  let y ← operandOf op 2 right
  pure (.float (op.apply x y))

/-- The label that a name gives, if it is a string. -/
def labelOf : QueryResult → Option String
  | .ok (.str s) => some s
  | _ => none

/-- Evaluates a first expression and then, unless it fails, a second one, which keeps its state
otherwise. -/
def inTurn (first : Expr × QueryResult) (second : Expr) (evalSecond : Unit → Expr × QueryResult) :
    Expr × Expr × Except QueryError (Value × Value) :=
  match first with
  | (a, .error e) => (a, second, .error e)
  | (a, .ok x) =>
    match evalSecond () with
    | (b, .error e) => (a, b, .error e)
    | (b, .ok y) => (a, b, .ok (x, y))

/-- Lets a window take part in an event, given the values of its element and of its bound. Without
both it stays as it is. -/
def advance {σ : Type} (l : Window.Listener σ) (s : σ) (retained : Window.Retained) (now : Nat)
    (inputs : Except QueryError (Value × Value)) : Window.Outcome σ Window.Retained :=
  match inputs with
  | .error e => ⟨s, retained, .error e⟩
  | .ok (element, bound) =>
    match boundOf retained.functionName bound with
    | .error e => ⟨s, retained, .error e⟩
    | .ok n => retained.advance l s element n now

/-- What an aggregate tells, given the running total and the number of elements. An average needs
one. -/
def aggregated (kind : Aggregate) (total : Float) (size : Nat) : QueryResult :=
  match kind with
  | .sum => .ok (.float total)
  | .average =>
    if size = 0 then .error .emptyWindow
    else .ok (.float (total / Decimal.nearestInt size))

/-- Counts a value, given it and the stride: the first of every `count` values passes, the others
become `null`. -/
def stride (seen : UInt64) (inputs : Except QueryError (Value × Value)) : UInt64 × QueryResult :=
  match inputs with
  | .error e => (seen, .error e)
  | .ok (element, count) =>
    match boundOf "EveryNth" count with
    | .error e => (seen, .error e)
    | .ok 0 => (seen, .error (.invalidArgument "EveryNth" .zeroStride))
    | .ok n => (seen + 1, .ok (if seen.toNat % n = 0 then element else .null))

/-- Lets a value pass with a probability, given both. -/
def chance (draw : Float) (inputs : Except QueryError (Value × Value)) : QueryResult := do
  let (element, probability) ← inputs
  match probability.number? with
  | none => .error (.invalidArgument "RandomSample" (.probabilityType probability.type))
  | some p =>
    if 0.0 ≤ p ∧ p ≤ 1.0 then .ok (if draw < p then element else .null)
    else .error (.invalidArgument "RandomSample" (.probabilityRange p))

def evalOn (o : Occasion) : Expr → Expr × QueryResult
  | .literal value => (.literal value, .ok value)
  | .lookup key =>
    let (key, result) := evalOn (o.within 0) key
    (.lookup key, result >>= resolve o.event)
  | .labelled value name _ =>
    let (name, label) := evalOn (o.within 1) name
    let (value, result) := evalOn (o.within 0) value
    (.labelled value name (labelOf label), result)
  | .arithmetic op left right =>
    let (left, x) := evalOn (o.within 0) left
    let (right, y) := evalOn (o.within 1) right
    (.arithmetic op left right, operate op x y)
  | .window retained element bound =>
    let (element, bound, inputs) :=
      inTurn (evalOn (o.within 0) element) bound fun _ => evalOn (o.within 1) bound
    let after := advance .silent () retained (o.now []) inputs
    (.window after.held element bound, after.result.map fun _ => after.held.newest)
  | .aggregate kind retained element bound total =>
    let (element, bound, inputs) :=
      inTurn (evalOn (o.within 0) element) bound fun _ => evalOn (o.within 1) bound
    let after := advance Window.Total.ofDoubles total retained (o.now []) inputs
    (.aggregate kind after.held element bound after.state,
      after.result >>= fun _ => aggregated kind after.state after.held.size)
  | .everyNth element count seen =>
    let (element, count, inputs) :=
      inTurn (evalOn (o.within 0) element) count fun _ => evalOn (o.within 1) count
    let (seen, result) := stride seen inputs
    (.everyNth element count seen, result)
  | .sample element probability =>
    let (element, probability, inputs) :=
      inTurn (evalOn (o.within 0) element) probability fun _ => evalOn (o.within 1) probability
    (.sample element probability, chance (o.draw []) inputs)

def eval (m : Moment) (e : Expr) : Expr × QueryResult := e.evalOn m.everywhere

end Expr

end LiveQuery
