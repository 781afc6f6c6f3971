import LiveQuery.Query.Eval

/-!
# A window under observation

A window on its own, outside a statement's tree, with a listener of the caller's choice. Elements
reach it as in a tree, by evaluating it on an event, or directly from the caller.
-/

namespace LiveQuery

/-- A window, and the state of whoever listens to it. -/
structure ObservedWindow (σ : Type) where
  retained : Window.Retained
  element : Expr
  bound : Expr
  state : σ

namespace ObservedWindow

variable {σ : Type}

def display (w : ObservedWindow σ) : String := (Expr.window w.retained w.element w.bound).display

/-- Takes over what an operation left behind. -/
def settle (w : ObservedWindow σ) (after : Window.Outcome σ Window.Retained) :
    ObservedWindow σ × Except QueryError Unit :=
  ({ w with retained := after.held, state := after.state }, after.result)

/-- Takes an element in directly. The bound is a number of elements or of seconds. -/
def push (l : Window.Listener σ) (w : ObservedWindow σ) (element : Value) (bound now : Nat) :
    ObservedWindow σ × Except QueryError Unit :=
  w.settle (w.retained.push l w.state element bound now)

/-- Takes an element into a timed window, with a length in nanoseconds. Another window stays as it
is. -/
def pushAt (l : Window.Listener σ) (w : ObservedWindow σ) (element : Value) (length now : Nat) :
    ObservedWindow σ × Except QueryError Unit :=
  match w.retained with
  | .timed held =>
    let after := Window.Timed.pushAt l w.state held element length now
    w.settle ⟨after.state, .timed after.held, after.result⟩
  | .rolling _ => (w, .ok ())

/-- Lets old elements of a timed window go, with a length in nanoseconds. Another window stays as it
is. -/
def expireAt (l : Window.Listener σ) (w : ObservedWindow σ) (length now : Nat) :
    ObservedWindow σ × Except QueryError Unit :=
  match w.retained with
  | .timed held =>
    let after := Window.Timed.expireAt l w.state held length now
    w.settle ⟨after.state, .timed after.held, after.result⟩
  | .rolling _ => (w, .ok ())

/-- Evaluates the window on an event: the newest element, once this event has taken part. -/
def evalOn (l : Window.Listener σ) (o : Occasion) (w : ObservedWindow σ) :
    ObservedWindow σ × QueryResult :=
  let (element, bound, inputs) :=
    Expr.inTurn (w.element.evalOn (o.within 0)) w.bound fun _ => w.bound.evalOn (o.within 1)
  let after := Expr.advance l w.state w.retained (o.now []) inputs
  (⟨after.held, element, bound, after.state⟩, after.result.map fun _ => after.held.newest)

def eval (l : Window.Listener σ) (m : Moment) (w : ObservedWindow σ) :
    ObservedWindow σ × QueryResult := w.evalOn l m.everywhere

end ObservedWindow

end LiveQuery
