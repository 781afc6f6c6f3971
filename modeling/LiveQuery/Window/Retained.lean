import LiveQuery.Window.Listener

/-!
# What a window holds

A rolling window holds the newest elements up to a number; a timed window holds the elements that
arrived within a span of time, and each of them keeps the time of its arrival. Both hold their
elements in the order of arrival and let the oldest go first. Times are readings of one clock in
nanoseconds.
-/

namespace LiveQuery.Window

structure Stamped where
  value : Value
  time : Nat

variable {σ : Type}

namespace Rolling

/-- Lets the oldest elements go until at most `bound` are held. -/
def shrink (l : Listener σ) (s : σ) (held : List Value) (bound : Nat) : Outcome σ (List Value) :=
  evict l id (fun held => bound < held.length) s held

/-- Takes an element in and then keeps to the bound, also if the element was refused. -/
def push (l : Listener σ) (s : σ) (held : List Value) (element : Value) (bound : Nat) :
    Outcome σ (List Value) :=
  let admitted := receive l id s held element
  let shrunk := shrink l admitted.state admitted.held bound
  { shrunk with result := firstFailure admitted.result shrunk.result }

end Rolling

namespace Timed

/-- Whether the oldest element arrived before `start`. -/
def oldestBefore (start : Nat) : List Stamped → Bool
  | [] => false
  | oldest :: _ => oldest.time < start

/-- Lets the elements go that are older than `length` at the time `now`. Nothing is older than the
origin of the clock. -/
def expireAt (l : Listener σ) (s : σ) (held : List Stamped) (length now : Nat) :
    Outcome σ (List Stamped) :=
  if now < length then ⟨s, held, .ok ()⟩
  else evict l Stamped.value (oldestBefore (now - length)) s held

/-- Takes an element in at the time `now` and then lets the old ones go, also if the element was
refused. -/
def pushAt (l : Listener σ) (s : σ) (held : List Stamped) (element : Value) (length now : Nat) :
    Outcome σ (List Stamped) :=
  let admitted := receive l Stamped.value s held ⟨element, now⟩
  let expired := expireAt l admitted.state admitted.held length now
  { expired with result := firstFailure admitted.result expired.result }

end Timed

def second : Nat := 1000000000

/-- The elements of a window, in the order of arrival, and with them its kind. -/
inductive Retained where
  /-- The newest elements, up to a number. -/
  | rolling (held : List Value)
  /-- The elements of a span of time. -/
  | timed (held : List Stamped)

namespace Retained

/-- The function whose calls are windows of this kind. -/
def functionName : Retained → String
  | .rolling _ => "RollingWindow"
  | .timed _ => "TimedWindow"

/-- The elements in the order of arrival. -/
def arrivals : Retained → List Value
  | .rolling held => held
  | .timed held => held.map Stamped.value

/-- The elements from the newest to the oldest. -/
def contents (r : Retained) : List Value := r.arrivals.reverse

def size : Retained → Nat
  | .rolling held => held.length
  | .timed held => held.length

/-- The newest element, or `null` if there is none. -/
def newest (r : Retained) : Value := r.arrivals.getLast?.getD .null

/-- A window of the same kind that holds nothing. -/
def cleared : Retained → Retained
  | .rolling _ => .rolling []
  | .timed _ => .timed []

/-- Takes an element in. The bound is a number of elements or of seconds, according to the kind. -/
def push (l : Listener σ) (s : σ) (r : Retained) (element : Value) (bound now : Nat) :
    Outcome σ Retained :=
  match r with
  | .rolling held =>
    let pushed := Rolling.push l s held element bound
    ⟨pushed.state, .rolling pushed.held, pushed.result⟩
  | .timed held =>
    let pushed := Timed.pushAt l s held element (bound * second) now
    ⟨pushed.state, .timed pushed.held, pushed.result⟩

/-- The share of one event in a window: an element is taken in unless it is `null`. A timed window
lets old elements go in either case. -/
def advance (l : Listener σ) (s : σ) (r : Retained) (element : Value) (bound now : Nat) :
    Outcome σ Retained :=
  if element.isNull then
    match r with
    | .rolling held => ⟨s, .rolling held, .ok ()⟩
    | .timed held =>
      let expired := Timed.expireAt l s held (bound * second) now
      ⟨expired.state, .timed expired.held, expired.result⟩
  else r.push l s element bound now

end Retained

end LiveQuery.Window
