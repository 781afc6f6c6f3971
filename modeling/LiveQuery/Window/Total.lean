import LiveQuery.Window.Listener

/-!
# Running totals

A total listens to a window: it adds every element that arrives and subtracts every element that
goes, so it never has to look at the others. An element that is not a number is refused and leaves
the total as it was. `Total.listener` leaves open in what numbers it counts; a query counts in
doubles.
-/

namespace LiveQuery.Window.Total

/-- Why an element cannot be counted. -/
def refusal (element : Value) : QueryError := .listenerValue element.type element.text

/-- A total over the numbers that `view` sees in the elements. -/
def listener {ν : Type} [Add ν] [Sub ν] (view : Value → Option ν) : Listener ν where
  hear total
    | .pushed element =>
      match view element with
      | some x => (total + x, .ok ())
      | none => (total, .error (refusal element))
    | .popped element =>
      match view element with
      | some x => (total - x, .ok ())
      | none => (total, .error (refusal element))

/-- The total of a query's aggregates. -/
def ofDoubles : Listener Float := listener Value.number?

end LiveQuery.Window.Total
