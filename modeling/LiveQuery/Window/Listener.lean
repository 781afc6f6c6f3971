import LiveQuery.Query.Error

/-!
# Listeners

A window tells one listener of every element that it takes in and of every element that it lets go.
The listener keeps a state of its own and may refuse a notice by failing. What a refusal means is
the window's affair: an element whose arrival is refused is not taken in, while an element that has
to go goes all the same.
-/

namespace LiveQuery.Window

inductive Notice where
  | pushed (element : Value)
  | popped (element : Value)

def Notice.element : Notice → Value
  | .pushed element => element
  | .popped element => element

structure Listener (σ : Type) where
  hear : σ → Notice → σ × Except QueryError Unit

def Listener.silent : Listener Unit where
  hear _ _ := ((), .ok ())

/-- The first failure of two attempts that were both made. -/
def firstFailure (first second : Except QueryError Unit) : Except QueryError Unit :=
  match first with
  | .ok _ => second
  | .error e => .error e

/-- What an operation on a window leaves behind: the listener's state, the elements held, and the
first refusal. -/
structure Outcome (σ β : Type) where
  state : σ
  held : β
  result : Except QueryError Unit

variable {σ α : Type}

/-- Lets the oldest elements go for as long as one is due, and tells the listener of each. The list
is in the order of arrival. A refusal does not stop the others from going. -/
def evict (l : Listener σ) (view : α → Value) (due : List α → Bool) (s : σ) :
    List α → Outcome σ (List α)
  | [] => ⟨s, [], .ok ()⟩
  | oldest :: rest =>
    if due (oldest :: rest) then
      let (heard, answer) := l.hear s (.popped (view oldest))
      let later := evict l view due heard rest
      { later with result := firstFailure answer later.result }
    else ⟨s, oldest :: rest, .ok ()⟩

/-- Offers a new element to the listener. It joins the others unless its arrival is refused. -/
def receive (l : Listener σ) (view : α → Value) (s : σ) (held : List α) (element : α) :
    Outcome σ (List α) :=
  let (heard, answer) := l.hear s (.pushed (view element))
  match answer with
  | .ok _ => ⟨heard, held ++ [element], .ok ()⟩
  | .error e => ⟨heard, held, .error e⟩

end LiveQuery.Window
