import LiveQuery.Query.Eval

/-!
# The parts of an expression and the events that reach them

Evaluation keeps the shape of an expression. A part changes only by being evaluated itself, once for
an event at most, on the event as it meets it: `parts_evalOn` says which parts are evaluated and
what becomes of the others. A part at any depth is then followed through a whole run by its place.
-/

namespace LiveQuery.Expr

/-- The parts of an expression, in the order of the arguments of its call. The window of an
aggregate is no part of its own: its parts are those of the aggregate. -/
def parts : Expr → List Expr
  | .literal _ => []
  | .lookup key => [key]
  | .labelled value name _ => [value, name]
  | .arithmetic _ left right => [left, right]
  | .window _ element bound => [element, bound]
  | .aggregate _ _ element bound _ => [element, bound]
  | .everyNth element count _ => [element, count]
  | .sample element probability => [element, probability]

/-- The part at a place. -/
def at? : Expr → Place → Option Expr
  | e, [] => some e
  | e, i :: place => e.parts[i]?.bind (·.at? place)

/-- Whether a part is evaluated on an occasion. The second part of a window, of an aggregate, of a
counter and of a sample is not if the first one fails. -/
def visits (o : Occasion) : Expr → Nat → Bool
  | .window _ element _, 1 => (element.evalOn (o.within 0)).2.isOk
  | .aggregate _ _ element _ _, 1 => (element.evalOn (o.within 0)).2.isOk
  | .everyNth element _ _, 1 => (element.evalOn (o.within 0)).2.isOk
  | .sample element _, 1 => (element.evalOn (o.within 0)).2.isOk
  | _, _ => true

/-- The expression after a run of events. -/
def after (os : List Occasion) (e : Expr) : Expr := os.foldl (fun e o => (e.evalOn o).1) e

@[simp] theorem after_nil (e : Expr) : e.after [] = e := rfl

@[simp] theorem after_cons (o : Occasion) (os : List Occasion) (e : Expr) :
    e.after (o :: os) = (e.evalOn o).1.after os := rfl

@[simp] theorem at?_nil (e : Expr) : e.at? [] = some e := by
  rw [at?]

theorem at?_cons (e : Expr) (i : Nat) (place : Place) :
    e.at? (i :: place) = e.parts[i]?.bind (·.at? place) := by
  rw [at?]

theorem at?_append (e : Expr) (place below : Place) :
    e.at? (place ++ below) = (e.at? place).bind (·.at? below) := by
  induction place generalizing e with
  | nil => rw [at?_nil, Option.bind_some, List.nil_append]
  | cons i place ih =>
    rw [List.cons_append, at?_cons, at?_cons, Option.bind_assoc]
    exact Option.bind_congr fun part _ => ih part

/-- What an expression hands down to its parts holds at every place. -/
theorem at?_induction {motive : Expr → Prop}
    (parts : ∀ e, motive e → ∀ part ∈ e.parts, motive part) {e part : Expr} (h : motive e)
    {place : Place} (hat : e.at? place = some part) : motive part := by
  induction place generalizing e with
  | nil =>
    rw [at?_nil] at hat
    exact Option.some.inj hat ▸ h
  | cons i place ih =>
    rw [at?_cons] at hat
    obtain ⟨child, hchild, hpart⟩ := Option.bind_eq_some_iff.1 hat
    exact ih (parts e h child (List.mem_of_getElem? hchild)) hpart

theorem inTurn_fst (first : Expr × QueryResult) (second : Expr)
    (evalSecond : Unit → Expr × QueryResult) : (inTurn first second evalSecond).1 = first.1 := by
  obtain ⟨a, x⟩ := first
  cases x with
  | error e => rfl
  | ok x =>
    rcases h : evalSecond () with ⟨b, y⟩
    cases y <;> simp only [inTurn, h]

theorem inTurn_snd (first : Expr × QueryResult) (second : Expr)
    (evalSecond : Unit → Expr × QueryResult) : (inTurn first second evalSecond).2.1 =
      if first.2.isOk then (evalSecond ()).1 else second := by
  obtain ⟨a, x⟩ := first
  cases x with
  | error e => rfl
  | ok x =>
    rcases h : evalSecond () with ⟨b, y⟩
    cases y <;> simp [inTurn, h, Except.isOk, Except.toBool]

theorem parts_evalOn (o : Occasion) (e : Expr) :
    (e.evalOn o).1.parts = e.parts.mapIdx fun i part =>
      if e.visits o i then (part.evalOn (o.within i)).1 else part := by
  cases e <;>
    simp [evalOn, parts, visits, inTurn_fst, inTurn_snd, List.mapIdx_cons]

theorem at?_evalOn_cons (o : Occasion) (e : Expr) (i : Nat) (place : Place) :
    (e.evalOn o).1.at? (i :: place) = e.parts[i]?.bind fun part =>
      (if e.visits o i then (part.evalOn (o.within i)).1 else part).at? place := by
  rw [at?_cons, parts_evalOn, List.getElem?_mapIdx, Option.bind_map]
  rfl

end LiveQuery.Expr
