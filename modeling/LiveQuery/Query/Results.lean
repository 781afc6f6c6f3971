import LiveQuery.Query.Eval

/-!
# The results of several queries on one event

The results are the fields of one object, each under the text of its query. A label that an event
gives may make two texts equal; the later one then gets a number, and no result is lost.
-/

namespace LiveQuery.Results

/-- A text with a number behind it. -/
def numbered (text : String) (n : Nat) : String := text ++ "#" ++ Nat.repr n

/-- The first of the texts with the numbers `n`, `n + 1`, … that is not taken, or the last one of
`fuel` many. -/
def firstFree (taken : String → Bool) (text : String) : Nat → Nat → String
  | 0, n => numbered text n
  | fuel + 1, n =>
    if taken (numbered text n) then firstFree taken text fuel (n + 1) else numbered text n

/-- The name under which a result is kept: its text, or the text with the least number from two on
that gives a new name. Among one more texts than there are names a new one is found. -/
def uniqueName (results : List (String × Json)) (text : String) : String :=
  let taken (name : String) : Bool := (Keyed.find? name results).isSome
  if taken text then firstFree taken text results.length 2 else text

/-- What is kept of a result: a failure gives `null`. -/
def valueOf : QueryResult → Json
  | .ok v => v.toJson
  | .error _ => .null

/-- Evaluates one query and adds its result. The text is taken afterwards, because the event may
change it. -/
def addResult (o : Occasion) (results : List (String × Json)) (query : Expr) :
    Expr × List (String × Json) :=
  let (query, result) := query.evalOn o
  (query, Keyed.insert (uniqueName results query.display) (valueOf result) results)

/-- Evaluates queries one after the other on the same event, on top of earlier results. Every query
reads the clock and draws on its own: they are the parts of the occasion from `first` on. -/
def evaluateOnto (o : Occasion) (first : Nat) (results : List (String × Json)) :
    List Expr → List Expr × List (String × Json)
  | [] => ([], results)
  | query :: rest =>
    let (query, results) := addResult (o.within first) results query
    let (rest, results) := evaluateOnto o (first + 1) results rest
    (query :: rest, results)

/-- Evaluates queries on one event. Gives the queries in their new state and the object of their
results. -/
def evaluateOn (o : Occasion) (queries : List Expr) : List Expr × Json :=
  let (queries, results) := evaluateOnto o 0 [] queries
  (queries, .object results)

/-- Evaluates queries at one moment. -/
def evaluateAll (m : Moment) (queries : List Expr) : List Expr × Json :=
  evaluateOn m.everywhere queries

end LiveQuery.Results
